import Mieru.Panel.Token

/-!
# Two-factor login of the panel

The file of the two-factor store with the access that reads it and the one
that rewrites it, the codes, and the lockout of a user after wrong codes.
-/

namespace Mieru.Panel

open Mieru.Foundation

structure Persisted where
  enabled : Bool := false
  secret : Bytes := []
  pendingSecret : Bytes := []
  backupCodes : List Bytes := []
  deriving DecidableEq

/-- What `json.Unmarshal` makes of the file. -/
inductive StoreFile where
  | missing
  | corrupt
  | content (p : Persisted)
  deriving DecidableEq

inductive StoreError where
  | readFailed
  | invalidJSON
  | writeFailed
  deriving DecidableEq

/-- The end of `os.WriteFile` and of the directory created before it. -/
inductive WriteResult where
  | written
  | notOpened
  /-- The file was truncated and only a part of the content was written. -/
  | torn
  /-- The content was written, but closing the file failed. -/
  | closeFailed
  deriving DecidableEq

def WriteResult.replaced : WriteResult → Bool
  | .written | .closeFailed => true
  | .notOpened | .torn => false

structure FileAnswers where
  readFails : Bool := false
  writeResult : WriteResult := .written
  deriving DecidableEq

namespace StoreFile

def read (file : StoreFile) (answers : FileAnswers) : Except StoreError Persisted :=
  if answers.readFails then .error .readFailed
  else
    match file with
    | .missing => .ok {}
    | .corrupt => .error .invalidJSON
    | .content p => .ok p

/-- The record `Write` starts from: a file that cannot be read counts as empty. -/
def base (file : StoreFile) (answers : FileAnswers) : Option Persisted :=
  if answers.readFails then some {}
  else
    match file with
    | .missing => some {}
    | .corrupt => none
    | .content p => some p

def replace (file : StoreFile) (p : Persisted) : WriteResult → StoreFile × Option StoreError
  | .written => (.content p, none)
  | .notOpened => (file, some .writeFailed)
  | .torn => (.corrupt, some .writeFailed)
  | .closeFailed => (.content p, some .writeFailed)

def write (file : StoreFile) (answers : FileAnswers)
    (update : Persisted → Persisted) : StoreFile × Option StoreError :=
  match file.base answers with
  | none => (file, some .invalidJSON)
  | some p => file.replace (update p) answers.writeResult

def replaces (file : StoreFile) (answers : FileAnswers) : Bool :=
  (file.base answers).isSome && answers.writeResult.replaced

def backupCodes : StoreFile → List Bytes
  | .content p => p.backupCodes
  | _ => []

end StoreFile

section

variable (crypto : PanelCrypto)

def validateTOTPCode (secret code : Bytes) (now : Int) : Bool :=
  let code := (trimSpace code).filter (· ≠ 32)
  if code.length ≠ 6 ∨ code.all isDigitByte = false then false
  else crypto.validateTOTP code secret now

def normBackupPlain (text : Bytes) : Bytes :=
  (crypto.toUpper (trimSpace text)).filter (· ≠ 45)

def matchBackupCode (plainInput : Bytes) (hashes : List Bytes) : Option Nat :=
  let want := normBackupPlain crypto plainInput
  if want.length ≠ 8 then none
  else hashes.findIdx? fun hash => crypto.compareHash hash want

end

def lockoutFailures : Nat := 5

def lockoutWindow : Int := 15 * minute

def lockoutDuration : Int := 15 * minute

structure Lockout where
  failTimes : Bytes → List Int := fun _ => []
  lockedUntil : Bytes → Option Int := fun _ => none

namespace Lockout

def setLocked (l : Lockout) (user : Bytes) (until? : Option Int) : Lockout :=
  { l with lockedUntil := fun other =>
      if other = user then until? else l.lockedUntil other }

def setFailTimes (l : Lockout) (user : Bytes) (times : List Int) : Lockout :=
  { l with failTimes := fun other =>
      if other = user then times else l.failTimes other }

/-- `LockedUntil`, which also forgets a lock that has expired. -/
def check (l : Lockout) (user : Bytes) (now : Int) : Lockout × Option Int :=
  match l.lockedUntil user with
  | none => (l, none)
  | some time =>
    if now < time then (l, some time) else (l.setLocked user none, none)

def recent (l : Lockout) (user : Bytes) (now : Int) : List Int :=
  (l.failTimes user).filter (fun time => now - lockoutWindow ≤ time) ++ [now]

def addFailure (l : Lockout) (user : Bytes) (now : Int) : Lockout × Option Int :=
  let times := l.recent user now
  if lockoutFailures ≤ times.length then
    ((l.setLocked user (some (now + lockoutDuration))).setFailTimes user [],
      some (now + lockoutDuration))
  else (l.setFailTimes user times, none)

def recordFailure (l : Lockout) (user : Bytes) (now : Int) : Lockout × Option Int :=
  match l.lockedUntil user with
  | some time => if now < time then (l, some time) else l.addFailure user now
  | none => l.addFailure user now

def clear (l : Lockout) (user : Bytes) : Lockout :=
  (l.setFailTimes user []).setLocked user none

end Lockout

end Mieru.Panel
