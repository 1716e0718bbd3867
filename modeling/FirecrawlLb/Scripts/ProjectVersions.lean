import FirecrawlLb.Python.Patterns
import FirecrawlLb.Scripts.ReleaseVersions

/-!
# The version of the project

Five files of the project hold its version.  `update_project_versions` writes a new one into them,
file by file, and `assert_project_versions` reads them all.  What `tomllib` and `json` make of a
text is not modelled: they are the parameters of this model.

A file is its text, since the files that are read are all UTF-8.
-/

namespace FirecrawlLb.Scripts

open FirecrawlLb.Lib FirecrawlLb.Python

/-- The managed files. -/
structure Files where
  pyproject : List Char
  init : List Char
  packageJson : List Char
  chart : List Char
  uvLock : List Char
  deriving DecidableEq

/-- A value of a TOML document; tables and texts are told apart from the others. -/
inductive Toml where
  | str (text : List Char)
  | table (items : List (List Char × Toml))
  | other

/-- What `json.dumps` returns: a text, or one with lone surrogates, which UTF-8 does not encode. -/
inductive Dump where
  | text (cs : List Char)
  | surrogates

/-- `tomllib` and `json`. -/
structure Codecs where
  /-- `tomllib.loads` -/
  tomlLoads : List Char → Except Raised (List (List Char × Toml))
  /-- what `json.loads` returns -/
  Data : Type
  /-- `json.loads` -/
  jsonLoads : List Char → Except Raised Data
  /-- `data["version"]`; none stands for a value that is not a text -/
  version : Data → Except Raised (Option (List Char))
  /-- `data["version"] = version`, for a dictionary -/
  setVersion : Data → List Char → Data
  /-- `json.dumps(data, indent=2, ensure_ascii=False)` -/
  jsonDumps : Data → Except Raised Dump

/-! ### The patterns -/

/-- `^version = "[^"]+"$` -/
def projectLine : Pattern := ⟨true, "version = \"".toList, [], true⟩

/-- `^__version__ = "[^"]+"` -/
def initLine : Pattern := ⟨true, "__version__ = \"".toList, [], false⟩

/-- The entry of the package in `uv.lock`. -/
def uvEntry : Pattern :=
  ⟨false, "[[package]]\nname = \"firecrawl-lb\"\nversion = \"".toList,
    "\nsource = \x7b editable = \".\" \x7d".toList, false⟩

def chartVersionKey : List Char := "version: ".toList

def chartAppVersionKey : List Char := "appVersion: ".toList

/-! ### Writing -/

/-- What is left of the files when an exception ends the update, or all of it is done. -/
abbrev Outcome := Except (Raised × Files) Files

/-- What is computed before a file is written. -/
def compute {α : Type} (files : Files) (x : Except Raised α) : Except (Raised × Files) α :=
  x.mapError (·, files)

def updatePyproject (version : List Char) (files : Files) : Outcome := do
  let text ← compute files (projectLine.replaceOnce version (universalNewlines files.pyproject))
  return { files with pyproject := text }

def updateInit (version : List Char) (files : Files) : Outcome := do
  let text ← compute files (initLine.replaceOnce version (universalNewlines files.init))
  return { files with init := text }

/-- The file is empty once it is opened, and stays so when the text cannot be encoded. -/
def updatePackageJson (lib : Codecs) (version : List Char) (files : Files) : Outcome := do
  let data ← compute files (lib.jsonLoads (universalNewlines files.packageJson))
  match ← compute files (lib.jsonDumps (lib.setVersion data version)) with
  | .text cs => return { files with packageJson := cs ++ ['\n'] }
  | .surrogates => .error (.valueError, { files with packageJson := [] })

def updateChart (version : List Char) (files : Files) : Outcome := do
  let text ← compute files (replaceLine chartVersionKey version (universalNewlines files.chart))
  let text ← compute files (replaceLine chartAppVersionKey version text)
  return { files with chart := text }

def updateUvLock (pypiVersion : List Char) (files : Files) : Outcome := do
  let text ← compute files (uvEntry.replaceOnce pypiVersion (universalNewlines files.uvLock))
  return { files with uvLock := text }

/-- `update_project_versions` -/
def updateProjectVersions (lib : Codecs) (files : Files) (version : List Char) : Outcome := do
  let release ← compute files (parseVersion version)
  let files ← updatePyproject version files
  let files ← updateInit version files
  let files ← updatePackageJson lib version files
  let files ← updateChart version files
  updateUvLock release.pypiVersion files

/-! ### Reading -/

/-- `read_pyproject_version_text` -/
def readPyprojectVersionText (lib : Codecs) (text : List Char) : Except Raised (List Char) := do
  let data ← lib.tomlLoads text
  match data.lookup "project".toList with
  | some (.table project) =>
    match project.lookup "version".toList with
    | some (.str version) => if version = [] then .error .valueError else return version
    | _ => .error .valueError
  | _ => .error .valueError

/-- `find` -/
def found (version : Option (List Char)) : Except Raised (List Char) :=
  version.elim (.error .valueError) .ok

/-- The keys of the dictionary that `read_project_versions` returns. -/
inductive ManagedVersion where
  | pyproject
  | init
  | packageJson
  | chartVersion
  | chartAppVersion
  | uvLock
  deriving DecidableEq

/-- `read_project_versions`; none is a version that is not a text. -/
def readProjectVersions (lib : Codecs) (files : Files) :
    Except Raised (List (ManagedVersion × Option (List Char))) := do
  let data ← lib.jsonLoads (universalNewlines files.packageJson)
  let chartText := universalNewlines files.chart
  let uvText := universalNewlines files.uvLock
  let pyproject ← readPyprojectVersionText lib (universalNewlines files.pyproject)
  let init ← found ((initLine.search (universalNewlines files.init)).map (·.2.1))
  let packageJson ← lib.version data
  let chartVersion ← found (findLine chartVersionKey chartText)
  let chartAppVersion ← found (findLine chartAppVersionKey chartText)
  let uvLock ← found ((uvEntry.search uvText).map (·.2.1))
  return [(.pyproject, some pyproject), (.init, some init), (.packageJson, packageJson),
    (.chartVersion, some chartVersion), (.chartAppVersion, some chartAppVersion),
    (.uvLock, some uvLock)]

/-- `canonical_release_version_for_file` -/
def canonicalReleaseVersionForFile (name : ManagedVersion) (value : Option (List Char)) :
    Option (List Char) :=
  if name = .uvLock then value.map canonicalReleaseVersion else value

/-- `assert_project_versions` -/
def assertProjectVersions (lib : Codecs) (files : Files) (expectedVersion : List Char) :
    Except Raised Unit := do
  let expected := canonicalReleaseVersion expectedVersion
  let versions ← readProjectVersions lib files
  if versions.all fun version => canonicalReleaseVersionForFile version.1 version.2 =
      canonicalReleaseVersionForFile version.1 (some expected) then return ()
  else .error .valueError

end FirecrawlLb.Scripts
