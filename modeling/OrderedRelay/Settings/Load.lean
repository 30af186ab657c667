import OrderedRelay.Settings.Environment
import OrderedRelay.Settings.Groups
import OrderedRelay.Settings.Overlay
import OrderedRelay.Yaml.Document

/-!
# Loading settings

Settings come from up to three files and from the environment, each laid over the ones before it. The
file with the usual name may be missing; one that is named, by the caller or by a variable, may not.
-/

namespace OrderedRelay

inductive SettingsError where
  | missing (file : String)
  | malformed (file : String)
  | unreachable (source : String)
  | unsuitable
deriving DecidableEq, Repr

namespace Settings

def usualFile : String := "brokerlink.yaml"

def fileVariable : String := "BROKERLINK_CONFIG"

/-- The variable whose value is the domain unless another one is set. -/
def userVariable : String := "USER"

def usualDomain : String := "brokerlink"

/-- The domain and instance id for want of others: the user's name, and an id with a part that no other
instance has. -/
def base (environment : Table String) (unique : String) : Settings :=
  let user := (environment.get? userVariable).getD ""
  ofIdentity ⟨if user = "" then usualDomain else user, "brokerlink-" ++ unique⟩

def laid (source : String) (settings : SettingValue) (entries : Table SettingValue) :
    Except SettingsError SettingValue :=
  match settings.overlay? entries with
  | some v => .ok v
  | none => .error (.unreachable source)

def laidFile (file text : String) (settings : SettingValue) : Except SettingsError SettingValue :=
  match Yaml.parse? text with
  | some entries => laid file settings entries
  | none => .error (.malformed file)

def laidNamed (files : Table String) (name : Option String) (settings : SettingValue) :
    Except SettingsError SettingValue :=
  match name with
  | none => .ok settings
  | some file =>
    match files.get? file with
    | some text => laidFile file text settings
    | none => .error (.missing file)

/-- All sources laid over one another: the usual file, the file at `path`, the file that a variable names
and the other variables. `files` holds the texts of the files that exist. -/
def sources (files : Table String) (path : Option String) (environment : Table String) :
    Except SettingsError SettingValue := do
  let usual ← laidNamed files (if files.has usualFile then some usualFile else none) (.table [])
  let named ← laidNamed files path usual
  let further ← laidNamed files (environment.get? fileVariable) named
  laid "the environment" further (Environment.settings environment)

def load (files : Table String) (path : Option String) (environment : Table String)
    (unique : String) : Except SettingsError Settings := do
  let all ← sources files path environment
  match ofEntries? (base environment unique) all.entries with
  | some settings => return settings
  | none => .error .unsuitable

end Settings

end OrderedRelay
