import Mieru.Foundation.TransitionSystem
import Mieru.Panel.RateLimit
import Mieru.Panel.TwoFactor

/-!
# The login and two-factor handlers of the panel

Requests are handled concurrently.  A request is a task that moves in steps;
each step has at most one access to what requests share: the configuration,
the rate limiter, the two-factor store and the lockout, each of which has a
lock of its own.  The clock moves between the steps.
-/

namespace Mieru.Panel

open Mieru.Foundation

structure Config where
  adminUsername : Bytes
  adminPasswordHash : Bytes
  sessionSecret : Bytes
  deriving DecidableEq

structure LoginPayload where
  username : Bytes
  password : Bytes := []
  code : Bytes := []
  challengeToken : Bytes := []
  useBackup : Bool := false
  deriving DecidableEq

structure PasswordCode where
  password : Bytes
  code : Bytes
  deriving DecidableEq

/-- A request; a body that is no JSON is `none`. -/
inductive Call where
  | login (body : Option LoginPayload)
  | setup2FA
  | verifySetup2FA (code : Option Bytes)
  | disable2FA (body : Option PasswordCode)
  | regenerateBackup (body : Option PasswordCode)
  deriving DecidableEq

structure Request where
  isPost : Bool := true
  forwardedFor : Bytes := []
  remoteAddr : Bytes := []
  call : Call
  deriving DecidableEq

inductive ReplyBody where
  | error (text : String)
  | storeError (err : StoreError)
  | internalError
  | ok
  | requires2FA (challengeToken : Bytes)
  | locked (text : String) (retryAfter secondsLeft : Int)
  | enrolment (secret : Bytes)
  | backupCodes (codes : List Bytes)
  deriving DecidableEq

structure Reply where
  status : Nat
  body : ReplyBody
  cookie : Option Bytes := none
  deriving DecidableEq

def errorReply (status : Nat) (text : String) : Reply where
  status := status
  body := .error text

def okReply : Reply where
  status := 200
  body := .ok

def clientIP (r : Request) : Bytes :=
  match trimSpace r.forwardedFor with
  | [] =>
    -- What stands before the last colon, if there is one.
    match r.remoteAddr.reverse.dropWhile (· ≠ 58) with
    | [] => r.remoteAddr
    | _ :: front => front.reverse
  | forwarded =>
    if 44 ∈ forwarded then trimSpace (forwarded.takeWhile (· ≠ 44))
    else forwarded

def lockedReply (time now : Int) (text : String) : Reply :=
  let rounded := (time - now + second / 2) / second
  let seconds := if rounded < 1 then 900 else rounded
  let left := unix time - unix now
  { status := 423
    body := .locked text seconds (if left < 1 then seconds else left) }

def tooManyCodes : String := "Too many invalid codes. Try again later."

/-! ## What has happened -/

inductive LoginProof where
  /-- A password; whether two-factor login was enabled. -/
  | password (password : Bytes) (twoFactor : Bool)
  /-- A challenge token, and a code evaluated with a record of the store. -/
  | code (challengeToken code key : Bytes) (state : Persisted) (time : Int)
  deriving DecidableEq

structure Issue where
  config : Config
  username : Bytes
  proof : LoginProof
  /-- A session cookie, or else a challenge token. -/
  isSession : Bool
  time : Int
  token : Bytes
  deriving DecidableEq

structure Evaluation where
  user : Bytes
  time : Int
  accepted : Bool
  locked : Bool
  deriving DecidableEq

structure Consumption where
  code : Bytes
  before : List Bytes
  after : List Bytes
  deriving DecidableEq

structure Enrolment where
  key : Bytes
  /-- The encrypted secret of the code. -/
  pendingSecret : Bytes
  secret : Bytes
  code : Bytes
  time : Int
  deriving DecidableEq

structure History where
  issues : List Issue := []
  evaluations : List Evaluation := []
  verifications : List (Bytes × Int) := []
  storedCodes : List Bytes := []
  consumptions : List Consumption := []
  enrolment : Option Enrolment := none

/-! ## Tasks -/

inductive Task where
  | idle
  | replied (reply : Reply)
  | panicked
  | password (cfg : Config) (ip : Bytes) (req : LoginPayload)
  /-- `handleLoginTotpFinish`, before the clock is read. -/
  | totp (cfg : Config) (req : LoginPayload)
  | totpTimed (cfg : Config) (req : LoginPayload) (now : Int)
  | totpUnlocked (cfg : Config) (req : LoginPayload) (now : Int)
  | totpChallenged (cfg : Config) (req : LoginPayload) (now : Int) (key : Bytes)
  | totpState (cfg : Config) (req : LoginPayload) (now : Int) (key : Bytes) (state : Persisted)
  /-- A backup code was found; it was evaluated at `time`. -/
  | totpBackup (cfg : Config) (req : LoginPayload) (now : Int) (key : Bytes)
      (state : Persisted) (time : Int) (idx : Nat)
  | totpAccepted (cfg : Config) (req : LoginPayload) (key : Bytes) (state : Persisted) (time : Int)
  | totpRejected (req : LoginPayload) (now : Int)
  | setup
  | setupStore
  | verify (code : Bytes)
  | verifyStore (enrolment : Enrolment)
  | disable (cfg : Config) (body : PasswordCode)
  | disableStore
  | regenerate (cfg : Config) (body : PasswordCode)
  | regenerateStore

structure StepEnv where
  answers : FileAnswers := {}
  generated : Option (Bytes × Bytes) := none
  codes : Option (List (Bytes × Bytes)) := none

structure App where
  config : Config
  loginLimiter : Option Limiter := none
  twoFAKey : Option Bytes := none
  twoFAStore : Option StoreFile := none
  totpLockout : Option Lockout := none
  now : Int := 0
  tasks : Nat → Task := fun _ => .idle
  history : History := {}

namespace App

def twoFACore (p : App) : Option (Bytes × StoreFile) :=
  match p.twoFAStore, p.twoFAKey with
  | some file, some key => if key.length = 32 then some (key, file) else none
  | _, _ => none

def admin2FAEnabled (state : Persisted) : Bool :=
  state.enabled && decide (trimSpace state.secret ≠ [])

def admin2FAConfiguredAndEnabled (p : App) (answers : FileAnswers) : Except StoreError Bool :=
  match p.twoFACore with
  | none => .ok false
  | some (_, file) => (file.read answers).map admin2FAEnabled

def backupCodes (p : App) : List Bytes :=
  match p.twoFAStore with
  | none => []
  | some file => file.backupCodes

def setFile (p : App) (file : StoreFile) : App :=
  { p with twoFAStore := some file }

def addIssue (p : App) (issue : Issue) : App :=
  { p with history := { p.history with
      issues := p.history.issues ++ [issue] } }

/-! ## HandleLogin, first step -/

section

variable (crypto : PanelCrypto)

/-- `consumeFailedPasswordAttempt` and the answer to wrong credentials. -/
def refuse (p : App) (ip : Bytes) : App × Reply :=
  match allow p.loginLimiter ip p.now with
  | (limiter, false) => ({ p with loginLimiter := limiter },
      errorReply 429 "too many attempts, try again later")
  | (limiter, true) => ({ p with loginLimiter := limiter }, errorReply 401 "invalid credentials")

def sessionIssue (p : App) (cfg : Config) (username : Bytes) (proof : LoginProof) : Issue where
  config := cfg
  username := username
  proof := proof
  isSession := true
  time := p.now
  token := setSessionCookie crypto cfg.sessionSecret username p.now

def challengeIssue (p : App) (cfg : Config) (req : LoginPayload) : Issue where
  config := cfg
  username := req.username
  proof := .password req.password true
  isSession := false
  time := p.now
  token := signChallengeToken crypto req.username cfg.sessionSecret challengeTTL p.now

def credentialsOK (cfg : Config) (req : LoginPayload) : Bool :=
  !(req.username == [] || req.password == []) && req.username == cfg.adminUsername &&
    crypto.compareHash cfg.adminPasswordHash req.password

def checkPassword (p : App) (answers : FileAnswers) (cfg : Config)
    (ip : Bytes) (req : LoginPayload) : App × Reply :=
  if credentialsOK crypto cfg req = false then p.refuse ip
  else
    match p.admin2FAConfiguredAndEnabled answers with
    | .error _ => (p, errorReply 500 "2FA unavailable")
    | .ok true =>
      let issue := p.challengeIssue crypto cfg req
      (p.addIssue issue, { status := 200, body := .requires2FA issue.token })
    | .ok false =>
      let issue := p.sessionIssue crypto cfg req.username (.password req.password false)
      (p.addIssue issue, { okReply with cookie := some issue.token })

/-! ## HandleLogin, second step -/

def checkLock (p : App) (cfg : Config) (req : LoginPayload) (now : Int) : App × Task :=
  match p.totpLockout with
  | none => (p, .totpUnlocked cfg req now)
  | some lockout =>
    match lockout.check req.username now with
    | (lockout, some time) => ({ p with totpLockout := some lockout },
        .replied (lockedReply time p.now tooManyCodes))
    | (lockout, none) => ({ p with totpLockout := some lockout }, .totpUnlocked cfg req now)

def checkChallenge (p : App) (cfg : Config) (req : LoginPayload) (now : Int) : Task :=
  if req.username ≠ cfg.adminUsername then
    .replied (errorReply 401 "invalid challenge")
  else if verifyChallengeToken crypto req.challengeToken req.username
      cfg.sessionSecret p.now = false then
    .replied (errorReply 401 "invalid or expired challenge")
  else
    match p.twoFACore with
    | none => .replied (errorReply 500 "two-factor unavailable")
    | some (key, _) => .totpChallenged cfg req now key

def readState (p : App) (answers : FileAnswers) (cfg : Config)
    (req : LoginPayload) (now : Int) (key : Bytes) : Task :=
  match p.twoFAStore with
  | none => .panicked
  | some file =>
    match file.read answers with
    | .error err => .replied { status := 500, body := .storeError err }
    | .ok state =>
      if state.enabled = false ∨ state.secret = [] then
        .replied (errorReply 400 "two-factor not enabled")
      else .totpState cfg req now key state

inductive Verdict where
  | totp
  | backup (idx : Nat)
  | wrong
  deriving DecidableEq

def verdict (req : LoginPayload) (secret : Bytes) (state : Persisted) (time : Int) : Verdict :=
  if req.useBackup = false ∧ validateTOTPCode crypto secret req.code time = true then .totp
  else
    match matchBackupCode crypto req.code state.backupCodes with
    | some idx => .backup idx
    | none => .wrong

def isLocked (p : App) (user : Bytes) : Bool :=
  match p.totpLockout with
  | none => false
  | some lockout =>
    match lockout.lockedUntil user with
    | some time => p.now < time
    | none => false

def addEvaluation (p : App) (user : Bytes) (accepted : Bool) : App :=
  { p with history := { p.history with
      evaluations := p.history.evaluations ++ [{
        user := user
        time := p.now
        accepted := accepted
        locked := p.isLocked user }] } }

def evaluateCode (p : App) (cfg : Config) (req : LoginPayload) (now : Int)
    (key : Bytes) (state : Persisted) : App × Task :=
  match crypto.openAESGCM key state.secret with
  | none => (p, .replied (errorReply 500 "2FA decryption failed"))
  | some secret =>
    match verdict crypto req secret state p.now with
    | .totp => (p.addEvaluation req.username true, .totpAccepted cfg req key state p.now)
    | .backup idx => (p.addEvaluation req.username true,
        .totpBackup cfg req now key state p.now idx)
    | .wrong => (p.addEvaluation req.username false, .totpRejected req now)

/-- The update of `maybeConsumeBackup`; an index outside the list panics. -/
def removeCode (idx : Nat) (codes : List Bytes) : Option (List Bytes) :=
  if idx < codes.length then some (codes.eraseIdx idx) else none

def addConsumption (p : App) (state : Persisted) (idx : Nat) (before after : List Bytes) : App :=
  { p with history := { p.history with
      consumptions := p.history.consumptions ++ [{
        code := state.backupCodes.getD idx []
        before := before
        after := after }] } }

def consumeBackup (p : App) (answers : FileAnswers) (cfg : Config) (req : LoginPayload) (now : Int)
    (key : Bytes) (state : Persisted) (time : Int) (idx : Nat) : App × Task :=
  match p.twoFAStore with
  | none => (p, .panicked)
  | some file =>
    match file.base answers with
    | none => (p, .totpRejected req now)
    | some st =>
      match removeCode idx st.backupCodes with
      | none => (p, .panicked)
      | some codes =>
        match file.replace { st with backupCodes := codes } answers.writeResult with
        | (file, none) =>
          ((p.setFile file).addConsumption state idx st.backupCodes
            codes, .totpAccepted cfg req key state time)
        | (file, some _) => (p.setFile file, .totpRejected req now)

def reject (p : App) (req : LoginPayload) (now : Int) : App × Reply :=
  match p.totpLockout with
  | none => (p, errorReply 401 "invalid code")
  | some lockout =>
    match lockout.recordFailure req.username now with
    | (lockout, some time) => ({ p with totpLockout := some lockout },
        lockedReply time p.now tooManyCodes)
    | (lockout, none) => ({ p with totpLockout := some lockout }, errorReply 401 "invalid code")

def accept (p : App) (cfg : Config) (req : LoginPayload) (key : Bytes)
    (state : Persisted) (time : Int) : App × Reply :=
  let issue := p.sessionIssue crypto cfg req.username
    (.code req.challengeToken req.code key state time)
  let cleared := { p with
    totpLockout := p.totpLockout.map (Lockout.clear · req.username)
    history := { p.history with
      verifications := p.history.verifications ++ [(req.username, p.now)] } }
  (cleared.addIssue issue, { okReply with cookie := some issue.token })

/-! ## Two-factor settings -/

/-- `TwoFAStore.Read` of a handler that has its answer to an error. -/
def withState (p : App) (answers : FileAnswers) (next : Persisted → Task) : Task :=
  match p.twoFAStore with
  | none => .panicked
  | some file =>
    match file.read answers with
    | .error err => .replied { status := 500, body := .storeError err }
    | .ok state => next state

def setup (p : App) (answers : FileAnswers) : Task :=
  match p.twoFACore with
  | none => .replied (errorReply 503 "two-factor storage unavailable")
  | some _ => p.withState answers fun state =>
    if state.enabled then .replied (errorReply 409 "2FA already enabled")
    else .setupStore

/--
`persist2FA` and the answer of the handler; `note` is what is remembered of a
write that has replaced the content.
-/
def persist (p : App) (answers : FileAnswers) (update : Persisted → Persisted)
    (note : History → History) (reply : Reply) : App × Task :=
  match p.twoFAStore with
  | none => (p, .panicked)
  | some file =>
    match file.write answers update with
    | (file', err) =>
      ({ p with
        twoFAStore := some file'
        history := if file.replaces answers then note p.history
          else p.history },
        .replied (match err with
          | none => reply
          | some err => { status := 500, body := .storeError err }))

def setupStore (p : App) (env : StepEnv) : App × Task :=
  match env.generated with
  | none => (p, .replied { status := 500, body := .internalError })
  | some (secret, blob) => p.persist env.answers
      (fun st => { st with pendingSecret := blob }) (fun history => history)
      { status := 200, body := .enrolment secret }

def verifySetup (p : App) (answers : FileAnswers) (code : Bytes) : Task :=
  p.withState answers fun state =>
    if state.enabled then .replied (errorReply 409 "already enabled")
    else if state.pendingSecret = [] then
      .replied (errorReply 400 "no pending enrollment")
    else
      let key := p.twoFAKey.getD []
      match crypto.openAESGCM key state.pendingSecret with
      | none => .replied (errorReply 401 "invalid code")
      | some secret =>
        if validateTOTPCode crypto secret code p.now = false then
          .replied (errorReply 401 "invalid code")
        else .verifyStore {
          key := key
          pendingSecret := state.pendingSecret
          secret := secret
          code := code
          time := p.now }

def enable (hashes : List Bytes) (st : Persisted) : Persisted where
  enabled := true
  secret := st.pendingSecret
  pendingSecret := []
  backupCodes := hashes

def verifyStore (p : App) (env : StepEnv) (enrolment : Enrolment) : App × Task :=
  match env.codes with
  | none => (p, .replied { status := 500, body := .internalError })
  | some codes =>
    let hashes := codes.map Prod.snd
    p.persist env.answers (enable hashes)
      (fun history => { history with
        storedCodes := history.storedCodes ++ hashes
        enrolment := some enrolment })
      { status := 200, body := .backupCodes (codes.map Prod.fst) }

def checkBoth (p : App) (cfg : Config) (body : PasswordCode)
    (state : Persisted) (next : Task) : Task :=
  if crypto.compareHash cfg.adminPasswordHash body.password = false then
    .replied (errorReply 401 "invalid password")
  else
    match crypto.openAESGCM (p.twoFAKey.getD []) state.secret with
    | none => .replied (errorReply 401 "invalid code")
    | some secret =>
      if validateTOTPCode crypto secret body.code p.now = false then
        .replied (errorReply 401 "invalid code")
      else next

def disable (p : App) (answers : FileAnswers) (cfg : Config) (body : PasswordCode) : Task :=
  p.withState answers fun state =>
    if state.enabled = false then .replied (errorReply 400 "2FA not enabled")
    else p.checkBoth crypto cfg body state .disableStore

def disableStore (p : App) (answers : FileAnswers) : App × Task :=
  p.persist answers (fun _ => {}) (fun history => history) okReply

def regenerate (p : App) (answers : FileAnswers) (cfg : Config) (body : PasswordCode) : Task :=
  match p.twoFAStore with
  | none => .panicked
  | some file =>
    match file.read answers with
    | .error _ => .replied (errorReply 400 "2FA not enabled")
    | .ok state =>
      if state.enabled = false then
        .replied (errorReply 400 "2FA not enabled")
      else p.checkBoth crypto cfg body state .regenerateStore

def regenerateStore (p : App) (env : StepEnv) : App × Task :=
  match env.codes with
  | none => (p, .replied { status := 500, body := .internalError })
  | some codes =>
    let hashes := codes.map Prod.snd
    p.persist env.answers (fun st => { st with backupCodes := hashes })
      (fun history => { history with
        storedCodes := history.storedCodes ++ hashes })
      { status := 200, body := .backupCodes (codes.map Prod.fst) }

/-! ## The panel as a system -/

def start (p : App) (r : Request) : Task :=
  if r.isPost = false then .replied (errorReply 405 "method not allowed")
  else
    match r.call with
    | .login none | .verifySetup2FA none | .disable2FA none
    | .regenerateBackup none => .replied (errorReply 400 "invalid json")
    | .login (some req) =>
      let req := { req with username := trimSpace req.username }
      if trimSpace req.code ≠ [] ∧ trimSpace req.challengeToken ≠ [] then
        .totp p.config req
      else .password p.config (clientIP r) req
    | .setup2FA => .setup
    | .verifySetup2FA (some code) => .verify code
    | .disable2FA (some body) => .disable p.config body
    | .regenerateBackup (some body) => .regenerate p.config body

def move (p : App) (env : StepEnv) : Task → Option (App × Task)
  | .idle | .replied _ | .panicked => none
  | .password cfg ip req =>
    match p.checkPassword crypto env.answers cfg ip req with
    | (p, reply) => some (p, .replied reply)
  | .totp cfg req => some (p, .totpTimed cfg req p.now)
  | .totpTimed cfg req now => some (p.checkLock cfg req now)
  | .totpUnlocked cfg req now => some (p, p.checkChallenge crypto cfg req now)
  | .totpChallenged cfg req now key =>
    some (p, p.readState env.answers cfg req now key)
  | .totpState cfg req now key state =>
    some (p.evaluateCode crypto cfg req now key state)
  | .totpBackup cfg req now key state time idx =>
    some (p.consumeBackup env.answers cfg req now key state time idx)
  | .totpAccepted cfg req key state time =>
    match p.accept crypto cfg req key state time with
    | (p, reply) => some (p, .replied reply)
  | .totpRejected req now =>
    match p.reject req now with
    | (p, reply) => some (p, .replied reply)
  | .setup => some (p, p.setup env.answers)
  | .setupStore => some (p.setupStore env)
  | .verify code => some (p, p.verifySetup crypto env.answers code)
  | .verifyStore enrolment => some (p.verifyStore env enrolment)
  | .disable cfg body => some (p, p.disable crypto env.answers cfg body)
  | .disableStore => some (p.disableStore env.answers)
  | .regenerate cfg body =>
    some (p, p.regenerate crypto env.answers cfg body)
  | .regenerateStore => some (p.regenerateStore env)

end

def setTask (p : App) (id : Nat) (task : Task) : App :=
  { p with tasks := Function.update p.tasks id task }

end App

inductive PanelEvent where
  | request (id : Nat) (r : Request)
  | step (id : Nat) (env : StepEnv)
  | tick (now : Int)
  | configure (config : Config)

namespace App

def next (crypto : PanelCrypto) (p : App) : PanelEvent → Option App
  | .request id r =>
    match p.tasks id with
    | .idle => some (p.setTask id (p.start r))
    | _ => none
  | .step id env =>
    (p.move crypto env (p.tasks id)).map fun (p, task) => p.setTask id task
  | .tick now => if p.now ≤ now then some { p with now := now } else none
  | .configure config => some { p with config := config }

def IsInitial (p : App) : Prop :=
  p.tasks = (fun _ => .idle) ∧ p.history.issues = [] ∧
    p.history.evaluations = [] ∧ p.history.verifications = [] ∧
    p.history.storedCodes = p.backupCodes ∧ p.history.consumptions = [] ∧
    p.history.enrolment = none

end App

def panelSystem (crypto : PanelCrypto) : System App PanelEvent :=
  System.ofNext App.IsInitial (App.next crypto)

/-- Cryptography that hides nothing; `111111` is always the code. -/
def plainCrypto : PanelCrypto where
  hmac secret payload := secret ++ payload
  compareHash hash password := hash == password
  openAESGCM _ blob := some blob
  validateTOTP code _ _ := code == List.replicate 6 49
  toUpper text := text

def adminConfig : Config where
  adminUsername := [97]
  adminPasswordHash := [98]
  sessionSecret := [99]

def panelWith (state : Persisted) : App where
  config := adminConfig
  twoFAKey := some (List.replicate 32 0)
  twoFAStore := some (.content state)
  totpLockout := some {}
  history := { storedCodes := state.backupCodes }

theorem isInitial_panelWith (state : Persisted) : (panelWith state).IsInitial :=
  ⟨rfl, rfl, rfl, rfl, rfl, rfl, rfl⟩

def steps (id count : Nat) : List PanelEvent :=
  List.replicate count (.step id {})

def passwordRequest : Request where
  call := .login (some { username := [97], password := [98] })

def codeRequest (challengeToken code : Bytes) : Request where
  call := .login (some {
    username := [97]
    code := code
    challengeToken := challengeToken })

end Mieru.Panel
