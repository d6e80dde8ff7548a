import PeerMix.Wire.Codec

/-!
# Settings

The settings of the client come in layers: the defaults, the settings file of
the user, the one of the project, and variables of the environment.  Each layer
replaces what it names.
-/

namespace PeerMix

open Wire

structure Settings where
  /-- Seconds within which a message has to be sent. -/
  sendTimeout : UInt64
  /-- Seconds within which a message has to arrive after the first run. -/
  receiveTimeout : UInt64
  logLevel : List Char
  /-- Whether log lines are JSON. -/
  logJson : Bool
  deriving DecidableEq, Repr

namespace Settings

def default : Settings :=
  { sendTimeout := 5, receiveTimeout := 20, logLevel := ['i', 'n', 'f', 'o'], logJson := false }

/-- Milliseconds within which a message has to be sent. -/
def sendLimit (s : Settings) : Nat :=
  1000 * s.sendTimeout.toNat

/-- Milliseconds within which a message has to arrive. -/
def receiveLimit (s : Settings) : Nat :=
  1000 * s.receiveTimeout.toNat

/-! ## Files -/

inductive Fault
  | unreadable
  | unparsable
  /-- The settings of the project do not have the right form. -/
  | misfit
  | sendTimeoutZero
  | receiveTimeoutZero
  deriving DecidableEq, Repr

def Fault.message? : Fault → Option String
  | .unreadable => some "Configuration error: Failed to read config file"
  | .unparsable => some "Configuration error: Failed to parse config file"
  | .misfit => none
  | .sendTimeoutZero => some "Configuration error: send_timeout_secs must be positive"
  | .receiveTimeoutZero => some "Configuration error: recv_timeout_secs must be positive"

inductive File
  | absent
  /-- Something that is no file. -/
  | obstacle
  | contents (bs : Bytes)
  deriving DecidableEq, Repr

def File.text? : File → Except Fault (Option (List Char))
  | .absent => .ok none
  | .obstacle => .error .unreadable
  | .contents bs =>
      match Utf8.decode bs with
      | .ok cs => .ok (some cs)
      | .error _ => .error .unreadable

open Codec Fields in
def fields :=
  optional "send_timeout_secs" uint64 default.sendTimeout <|
    optional "recv_timeout_secs" uint64 default.receiveTimeout <|
    optional "log_level" text default.logLevel <|
    optional "log_json" bool default.logJson nil

def codec : Codec Settings :=
  .record fields
    (fun s => (s.sendTimeout, s.receiveTimeout, s.logLevel, s.logJson, ()))
    (fun (sendTimeout, receiveTimeout, logLevel, logJson, _) =>
      { sendTimeout, receiveTimeout, logLevel, logJson })

def ofGlobalFile (file : File) : Except Fault Settings := do
  match ← file.text? with
  | none => return default
  | some cs => (codec.decode cs).mapError fun _ => .unparsable

def lastMember? (name : String) (members : List Json.Member) : Option Json :=
  (members.reverse.find? fun (key, _) => key = some name.toList).map (·.2)

def replaced {α : Type} (codec : Codec α) (name : String) (old : α)
    (members : List Json.Member) : Except Fault α :=
  match lastMember? name members with
  | none => .ok old
  | some v => (codec.read v).mapError fun _ => .misfit

def overlay (s : Settings) (members : List Json.Member) : Except Fault Settings := do
  let sendTimeout ← replaced Codec.uint64 "send_timeout_secs" s.sendTimeout members
  let receiveTimeout ← replaced Codec.uint64 "recv_timeout_secs" s.receiveTimeout members
  let logLevel ← replaced Codec.text "log_level" s.logLevel members
  let logJson ← replaced Codec.bool "log_json" s.logJson members
  return { sendTimeout, receiveTimeout, logLevel, logJson }

/-- Lays the file of the project over the settings.  It has to be a JSON
document, but only an object says anything. -/
def overlayFile (s : Settings) (file : File) : Except Fault Settings := do
  match ← file.text? with
  | none => return s
  | some cs =>
      match Json.readStrict? cs with
      | none => throw .unparsable
      | some (.object members _) => s.overlay members
      | some _ => return s

/-! ## Environment -/

abbrev Environment := List (String × String)

def digitsNumber? (digits : List Char) : Option UInt64 :=
  if digits.isEmpty ∨ !digits.all Json.isDigit then none
  else
    let n := Json.digitsValue digits
    if n < UInt64.size then some (UInt64.ofNat n) else none

/-- The number that a text spells: digits, after at most one plus sign. -/
def number? (text : String) : Option UInt64 :=
  match text.toList with
  | '+' :: cs => digitsNumber? cs
  | cs => digitsNumber? cs

def flag? (text : String) : Option Bool :=
  if text = "true" then some true else if text = "false" then some false else none

/-- The value of a variable, if it is set and well-formed, or else the old one. -/
def overridden {α : Type} (env : Environment) (name : String) (parse? : String → Option α)
    (old : α) : α :=
  ((env.lookup name).bind parse?).getD old

def withEnvironment (s : Settings) (env : Environment) : Settings :=
  { sendTimeout := overridden env "CSPP_SEND_TIMEOUT_SECS" number? s.sendTimeout
    receiveTimeout := overridden env "CSPP_RECV_TIMEOUT_SECS" number? s.receiveTimeout
    logLevel := overridden env "CSPP_LOG_LEVEL" (fun text => some text.toList) s.logLevel
    logJson := overridden env "CSPP_LOG_JSON" flag? s.logJson }

/-! ## All layers -/

def check (s : Settings) : Except Fault Settings :=
  if s.sendTimeout = 0 then .error .sendTimeoutZero
  else if s.receiveTimeout = 0 then .error .receiveTimeoutZero
  else .ok s

def load (global project : File) (env : Environment) : Except Fault Settings := do
  let s ← ofGlobalFile global
  let s ← s.overlayFile project
  (s.withEnvironment env).check

/-! ## Places -/

/-- Goes on from a directory to something in it.  An empty directory name stands
for the current one. -/
def joinPath (directory name : String) : String :=
  if directory.isEmpty ∨ directory.endsWith "/" then directory ++ name
  else directory ++ "/" ++ name

/-- Where the settings file of the user is looked for, by the two variables that
name a place for settings and the home directory. -/
def globalPath? (configHome home : Option String) : Option String :=
  let directory :=
    match configHome with
    | some d => some d
    | none => home.map fun h => joinPath h ".config"
  directory.map fun d => joinPath (joinPath d "cspp") "settings.json"

end Settings
end PeerMix
