/-
# Versions of the backup format

What a restore has to look for depends on the version of the format a backup was written in.
A version is a number; the questions below are those that have a different answer before and
after some version.
-/

namespace TenantRestore

/-- The version of the format a backup was written in. -/
abbrev FormatVersion := Nat

namespace FormatVersion

/-- The version current backups are written in. -/
def current : FormatVersion := 8

/-- Whether drive items are stored as a data file plus a metadata file instead of just the data. -/
def hasMetaFiles (v : FormatVersion) : Bool := 1 ≤ v

/-- Whether the metadata of a directory is stored within its own collection, not in that of the
directory above it. -/
def keepsOwnDirMeta (v : FormatVersion) : Bool := 4 ≤ v

/-- Whether the name of a drive item is only found in its metadata file. -/
def hasNameInMeta (v : FormatVersion) : Bool := 6 ≤ v

end FormatVersion

/-- The ending of the file with the content of a drive item. -/
def dataSuffix : String := ".data"

/-- The ending of the file with the metadata of a drive item. -/
def metaSuffix : String := ".meta"

/-- The ending of the file with the metadata of a directory. -/
def dirMetaSuffix : String := ".dirmeta"

/-- The name of the metadata file within the collection of a folder: since version 5 it no
longer carries the name of the folder. -/
def FormatVersion.dirMetaName (v : FormatVersion) (folder : String) : String :=
  if 5 ≤ v then dirMetaSuffix else folder ++ dirMetaSuffix

/-- What stands before an ending of a text, if the text has it. -/
def stem? (text ending : String) : Option String :=
  if ending.toList.isSuffixOf text.toList then
    some (String.ofList (text.toList.take (text.toList.length - ending.toList.length)))
  else none

end TenantRestore
