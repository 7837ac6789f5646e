import Mieru.Panel.Handlers

/-!
# What a step of a handler can do

One inversion lemma for the steps of all tasks.  The invariants of the panel
are proved by cases over it.
-/

namespace Mieru.Panel

open Mieru.Foundation

variable {reply : Reply} {cfg : Config} {req : LoginPayload} {now : Int} {key : Bytes}
  {state : Persisted}

def Task.isFirst : Task → Bool
  | .idle | .replied _ | .password .. | .totp .. | .setup | .verify _
  | .disable .. | .regenerate .. => true
  | _ => false

namespace App

def Spoilt (file file' : StoreFile) : Prop := file' = file ∨ file' = .corrupt

inductive Wrote (file : StoreFile) (answers : FileAnswers)
    (update : Persisted → Persisted) : Bool → StoreFile → Prop
  | spoilt {file' : StoreFile} : Spoilt file file' → Wrote file answers update false file'
  | replaced {st : Persisted} : file.base answers = some st →
      Wrote file answers update true (.content (update st))

inductive Moves (crypto : PanelCrypto) (env : StepEnv) (p : App) :
    Task → App → Task → Prop
  | ended {task : Task} {reply : Reply} : Moves crypto env p task p (.replied reply)
  | noStore {task : Task} : p.twoFAStore = none → Moves crypto env p task p .panicked
  | refused {cfg : Config} {ip : Bytes} {req : LoginPayload}
      {limiter : Option Limiter} {reply : Reply} :
      Moves crypto env p (.password cfg ip req) { p with loginLimiter := limiter } (.replied reply)
  | challenge {cfg : Config} {ip : Bytes} {req : LoginPayload} {reply : Reply} :
      credentialsOK crypto cfg req = true →
      Moves crypto env p (.password cfg ip req)
        (p.addIssue (p.challengeIssue crypto cfg req)) (.replied reply)
  | session {cfg : Config} {ip : Bytes} {req : LoginPayload} {reply : Reply} :
      credentialsOK crypto cfg req = true →
      Moves crypto env p (.password cfg ip req) (p.addIssue (p.sessionIssue crypto cfg req.username
          (.password req.password false))) (.replied reply)
  | timed {cfg : Config} {req : LoginPayload} :
      Moves crypto env p (.totp cfg req) p (.totpTimed cfg req p.now)
  | noLockout {cfg : Config} {req : LoginPayload} {now : Int} : p.totpLockout = none →
      Moves crypto env p (.totpTimed cfg req now) p (.totpUnlocked cfg req now)
  | locked {cfg : Config} {req : LoginPayload} {now time : Int}
      {lockout lockout' : Lockout} {reply : Reply} :
      p.totpLockout = some lockout →
      lockout.check req.username now = (lockout', some time) →
      Moves crypto env p (.totpTimed cfg req now)
        { p with totpLockout := some lockout' } (.replied reply)
  | unlocked {cfg : Config} {req : LoginPayload} {now : Int} {lockout lockout' : Lockout} :
      p.totpLockout = some lockout →
      lockout.check req.username now = (lockout', none) →
      Moves crypto env p (.totpTimed cfg req now)
        { p with totpLockout := some lockout' } (.totpUnlocked cfg req now)
  | challenged {cfg : Config} {req : LoginPayload} {now : Int} {key : Bytes} :
      verifyChallengeToken crypto req.challengeToken req.username cfg.sessionSecret p.now = true →
      p.twoFAKey = some key →
      Moves crypto env p (.totpUnlocked cfg req now) p (.totpChallenged cfg req now key)
  | readState {cfg : Config} {req : LoginPayload} {now : Int} {key : Bytes}
      {file : StoreFile} {state : Persisted} : p.twoFAStore = some file →
      file.read env.answers = .ok state →
      Moves crypto env p (.totpChallenged cfg req now key) p (.totpState cfg req now key state)
  | totpCode {cfg : Config} {req : LoginPayload} {now : Int} {key : Bytes}
      {state : Persisted} {secret : Bytes} :
      crypto.openAESGCM key state.secret = some secret →
      verdict crypto req secret state p.now = .totp →
      Moves crypto env p (.totpState cfg req now key state) (p.addEvaluation req.username true)
        (.totpAccepted cfg req key state p.now)
  | backupCode {cfg : Config} {req : LoginPayload} {now : Int} {key : Bytes}
      {state : Persisted} {secret : Bytes} {idx : Nat} :
      crypto.openAESGCM key state.secret = some secret →
      verdict crypto req secret state p.now = .backup idx →
      Moves crypto env p (.totpState cfg req now key state) (p.addEvaluation req.username true)
        (.totpBackup cfg req now key state p.now idx)
  | wrongCode {cfg : Config} {req : LoginPayload} {now : Int} {key : Bytes} {state : Persisted} :
      Moves crypto env p (.totpState cfg req now key state)
        (p.addEvaluation req.username false) (.totpRejected req now)
  | outside {cfg : Config} {req : LoginPayload} {now : Int} {key : Bytes}
      {state st : Persisted} {time : Int} {idx : Nat} {file : StoreFile} :
      p.twoFAStore = some file → file.base env.answers = some st →
      st.backupCodes.length ≤ idx →
      Moves crypto env p (.totpBackup cfg req now key state time idx) p .panicked
  | notRemoved {cfg : Config} {req : LoginPayload} {now : Int} {key : Bytes}
      {state : Persisted} {time : Int} {idx : Nat} {file file' : StoreFile}
      {replaced : Bool} : p.twoFAStore = some file →
      Wrote file env.answers (fun st =>
        { st with backupCodes := st.backupCodes.eraseIdx idx }) replaced
        file' →
      Moves crypto env p (.totpBackup cfg req now key state time idx)
        (p.setFile file') (.totpRejected req now)
  | removed {cfg : Config} {req : LoginPayload} {now : Int} {key : Bytes}
      {state st : Persisted} {time : Int} {idx : Nat} {file : StoreFile} :
      p.twoFAStore = some file → file.base env.answers = some st →
      idx < st.backupCodes.length →
      Moves crypto env p (.totpBackup cfg req now key state time idx)
        ((p.setFile (.content { st with
          backupCodes := st.backupCodes.eraseIdx idx })).addConsumption state
            idx st.backupCodes (st.backupCodes.eraseIdx idx))
        (.totpAccepted cfg req key state time)
  | accepted {cfg : Config} {req : LoginPayload} {key : Bytes}
      {state : Persisted} {time : Int} {reply : Reply} :
      Moves crypto env p (.totpAccepted cfg req key state time)
        (p.accept crypto cfg req key state time).1 (.replied reply)
  | rejected {req : LoginPayload} {now : Int} {lockout : Lockout}
      {reply : Reply} : p.totpLockout = some lockout →
      Moves crypto env p (.totpRejected req now)
        { p with
          totpLockout := some (lockout.recordFailure req.username now).1 }
        (.replied reply)
  | setup : Moves crypto env p .setup p .setupStore
  | setupStored {file file' : StoreFile} {blob : Bytes} {reply : Reply}
      {replaced : Bool} : p.twoFAStore = some file →
      Wrote file env.answers (fun st =>
        { st with pendingSecret := blob }) replaced file' →
      Moves crypto env p .setupStore (p.setFile file') (.replied reply)
  | verified {code : Bytes} {state : Persisted} {secret : Bytes}
      {file : StoreFile} : p.twoFAStore = some file →
      file.read env.answers = .ok state → state.pendingSecret ≠ [] →
      crypto.openAESGCM (p.twoFAKey.getD []) state.pendingSecret = some secret →
      validateTOTPCode crypto secret code p.now = true →
      Moves crypto env p (.verify code) p (.verifyStore {
        key := p.twoFAKey.getD []
        pendingSecret := state.pendingSecret
        secret := secret
        code := code
        time := p.now })
  | notEnabled {enrolment : Enrolment} {file file' : StoreFile}
      {reply : Reply} : p.twoFAStore = some file →
      Spoilt file file' →
      Moves crypto env p (.verifyStore enrolment) (p.setFile file') (.replied reply)
  | enabled {enrolment : Enrolment} {file : StoreFile} {st : Persisted}
      {hashes : List Bytes} {reply : Reply} : p.twoFAStore = some file →
      file.base env.answers = some st →
      Moves crypto env p (.verifyStore enrolment)
        { p with
          twoFAStore := some (.content (enable hashes st))
          history := { p.history with
            storedCodes := p.history.storedCodes ++ hashes
            enrolment := some enrolment } } (.replied reply)
  | disable {cfg : Config} {body : PasswordCode} :
      Moves crypto env p (.disable cfg body) p .disableStore
  | disableStored {file file' : StoreFile} {reply : Reply}
      {replaced : Bool} : p.twoFAStore = some file →
      Wrote file env.answers (fun _ => {}) replaced file' →
      Moves crypto env p .disableStore (p.setFile file') (.replied reply)
  | regenerate {cfg : Config} {body : PasswordCode} :
      Moves crypto env p (.regenerate cfg body) p .regenerateStore
  | notRegenerated {file file' : StoreFile} {reply : Reply} :
      p.twoFAStore = some file → Spoilt file file' →
      Moves crypto env p .regenerateStore (p.setFile file') (.replied reply)
  | regenerated {file : StoreFile} {st : Persisted} {hashes : List Bytes}
      {reply : Reply} : p.twoFAStore = some file →
      file.base env.answers = some st →
      Moves crypto env p .regenerateStore
        { p with
          twoFAStore := some (.content { st with backupCodes := hashes })
          history := { p.history with
            storedCodes := p.history.storedCodes ++ hashes } }
        (.replied reply)

variable {crypto : PanelCrypto} {env : StepEnv} {p p' : App}
  {task task' : Task} {answers : FileAnswers}

theorem setFile_self {file : StoreFile} (h : p.twoFAStore = some file) : p.setFile file = p := by
  unfold setFile
  rw [← h]

theorem wrote_of_write (file : StoreFile) (answers : FileAnswers) (update : Persisted → Persisted) :
    Wrote file answers update (file.replaces answers) (file.write answers update).1 := by
  unfold StoreFile.replaces StoreFile.write
  cases hbase : file.base answers with
  | none => exact .spoilt (.inl rfl)
  | some st =>
    cases answers.writeResult with
    | written | closeFailed => exact .replaced hbase
    | notOpened => exact .spoilt (.inl rfl)
    | torn => exact .spoilt (.inr rfl)

theorem persist_cases {update : Persisted → Persisted} {note : History → History}
    (h : p.persist answers update note reply = (p', task')) :
    (p.twoFAStore = none ∧ p' = p ∧ task' = .panicked) ∨
      ∃ file file' replaced answer, p.twoFAStore = some file ∧
        Wrote file answers update replaced file' ∧ p' = { p with
          twoFAStore := some file'
          history := if replaced then note p.history else p.history } ∧
        task' = .replied answer := by
  unfold persist at h
  split at h
  · cases h
    exact .inl ⟨‹_›, rfl, rfl⟩
  · rename_i file hfile
    cases h
    exact .inr ⟨file, _, _, _, hfile, wrote_of_write file answers update, rfl, rfl⟩

theorem moves_checkPassword {ip : Bytes}
    (h : p.checkPassword crypto env.answers cfg ip req = (p', reply)) :
    Moves crypto env p (.password cfg ip req) p' (.replied reply) := by
  unfold checkPassword at h
  split at h
  · unfold refuse at h
    split at h
    · cases h
      exact .refused
    · cases h
      exact .refused
  · rename_i hfalse
    have hok : credentialsOK crypto cfg req = true := by simpa using hfalse
    split at h
    · cases h
      exact .ended
    · cases h
      exact .challenge hok
    · cases h
      exact .session hok

theorem moves_checkLock (h : p.checkLock cfg req now = (p', task')) :
    Moves crypto env p (.totpTimed cfg req now) p' task' := by
  unfold checkLock at h
  split at h
  · cases h
    exact .noLockout ‹_›
  · rename_i lockout hlockout
    split at h
    · rename_i hcheck
      cases h
      exact .locked hlockout hcheck
    · rename_i hcheck
      cases h
      exact .unlocked hlockout hcheck

theorem moves_checkChallenge (cfg : Config) (req : LoginPayload) (now : Int) :
    Moves crypto env p (.totpUnlocked cfg req now) p (p.checkChallenge crypto cfg req now) := by
  unfold checkChallenge
  split
  · exact .ended
  · split
    · exact .ended
    · rename_i hverify
      split
      · exact .ended
      · rename_i key file hcore
        refine .challenged (by simpa using hverify) ?_
        unfold twoFACore at hcore
        split at hcore
        · rename_i hkey
          split at hcore
          · cases hcore
            exact hkey
          · cases hcore
        · cases hcore

theorem moves_readState (cfg : Config) (req : LoginPayload) (now : Int) (key : Bytes) :
    Moves crypto env p (.totpChallenged cfg req now key) p
      (p.readState env.answers cfg req now key) := by
  unfold App.readState
  split
  · exact .noStore ‹_›
  · split
    · exact .ended
    · split
      · exact .ended
      · exact .readState ‹_› ‹_›

theorem moves_evaluateCode (h : p.evaluateCode crypto cfg req now key state = (p', task')) :
    Moves crypto env p (.totpState cfg req now key state) p' task' := by
  unfold evaluateCode at h
  split at h
  · cases h
    exact .ended
  · rename_i secret hsecret
    split at h
    · cases h
      exact .totpCode hsecret ‹_›
    · cases h
      exact .backupCode hsecret ‹_›
    · cases h
      exact .wrongCode

theorem moves_consumeBackup {time : Int} {idx : Nat}
    (h : p.consumeBackup env.answers cfg req now key state time idx = (p', task')) :
    Moves crypto env p (.totpBackup cfg req now key state time idx) p' task' := by
  unfold consumeBackup at h
  split at h
  · cases h
    exact .noStore ‹_›
  · rename_i file hfile
    split at h
    · cases h
      have hmove : Moves crypto env p (.totpBackup cfg req now key state time idx) (p.setFile file)
          (.totpRejected req now) := .notRemoved hfile (.spoilt (.inl rfl))
      rwa [setFile_self hfile] at hmove
    · rename_i st hbase
      split at h
      · rename_i hnone
        cases h
        refine .outside hfile hbase ?_
        unfold removeCode at hnone
        split at hnone
        · cases hnone
        · omega
      · rename_i codes hcodes
        unfold removeCode at hcodes
        split at hcodes
        · cases hcodes
          cases hresult : env.answers.writeResult with
          | written =>
            rw [hresult] at h
            cases h
            exact .removed hfile hbase ‹_›
          | closeFailed =>
            rw [hresult] at h
            cases h
            exact .notRemoved hfile (.replaced hbase)
          | notOpened =>
            rw [hresult] at h
            cases h
            exact .notRemoved hfile (.spoilt (.inl rfl))
          | torn =>
            rw [hresult] at h
            cases h
            exact .notRemoved hfile (.spoilt (.inr rfl))
        · cases hcodes

theorem moves_accept {time : Int} (h : p.accept crypto cfg req key state time = (p', reply)) :
    Moves crypto env p (.totpAccepted cfg req key state time) p' (.replied reply) := by
  obtain rfl : (p.accept crypto cfg req key state time).1 = p' :=
    congrArg Prod.fst h
  exact .accepted

theorem moves_reject (h : p.reject req now = (p', reply)) :
    Moves crypto env p (.totpRejected req now) p' (.replied reply) := by
  unfold reject at h
  split at h
  · cases h
    exact .ended
  · rename_i lockout hlockout
    have hrejected : Moves crypto env p (.totpRejected req now)
        { p with
          totpLockout := some (lockout.recordFailure req.username now).1 }
        (.replied reply) := .rejected hlockout
    split at h
    · rename_i hrecord
      rw [hrecord] at hrejected
      cases h
      exact hrejected
    · rename_i hrecord
      rw [hrecord] at hrejected
      cases h
      exact hrejected

theorem moves_withState {next : Persisted → Task} (h : ∀ file state, p.twoFAStore = some file →
      file.read env.answers = .ok state → Moves crypto env p task p (next state)) :
    Moves crypto env p task p (p.withState env.answers next) := by
  unfold withState
  split
  · exact .noStore ‹_›
  · split
    · exact .ended
    · exact h _ _ ‹_› ‹_›

theorem moves_setup : Moves crypto env p .setup p (p.setup env.answers) := by
  unfold App.setup
  split
  · exact .ended
  · refine moves_withState fun file state _ _ => ?_
    split
    · exact .ended
    · exact .setup

theorem moves_setupStore (h : p.setupStore env = (p', task')) :
    Moves crypto env p .setupStore p' task' := by
  unfold App.setupStore at h
  split at h
  · cases h
    exact .ended
  · obtain ⟨hnone, rfl, rfl⟩ |
      ⟨file, file', replaced, answer, hfile, hwrote, rfl, rfl⟩ := persist_cases h
    · exact .noStore hnone
    · rw [ite_self]
      exact .setupStored hfile hwrote

theorem moves_verifySetup (code : Bytes) : Moves crypto env p (.verify code) p
      (p.verifySetup crypto env.answers code) := by
  refine moves_withState fun file state hfile hread => ?_
  split
  · exact .ended
  · split
    · exact .ended
    · rename_i hpending
      dsimp only
      split
      · exact .ended
      · rename_i secret hsecret
        split
        · exact .ended
        · rename_i hcode
          exact .verified hfile hread hpending hsecret (by simpa using hcode)

theorem moves_verifyStore {enrolment : Enrolment} (h : p.verifyStore env enrolment = (p', task')) :
    Moves crypto env p (.verifyStore enrolment) p' task' := by
  unfold App.verifyStore at h
  split at h
  · cases h
    exact .ended
  · obtain ⟨hnone, rfl, rfl⟩ |
      ⟨file, file', replaced, answer, hfile, hwrote, rfl, rfl⟩ := persist_cases h
    · exact .noStore hnone
    · cases hwrote with
      | spoilt hspoilt => exact .notEnabled hfile hspoilt
      | replaced hbase => exact .enabled hfile hbase

theorem moves_checkBoth (cfg : Config) (body : PasswordCode)
    (state : Persisted) {next : Task} (h : Moves crypto env p task p next) :
    Moves crypto env p task p (p.checkBoth crypto cfg body state next) := by
  unfold checkBoth
  split
  · exact .ended
  · split
    · exact .ended
    · split
      · exact .ended
      · exact h

theorem moves_disable (cfg : Config) (body : PasswordCode) :
    Moves crypto env p (.disable cfg body) p (p.disable crypto env.answers cfg body) := by
  refine moves_withState fun file state _ _ => ?_
  split
  · exact .ended
  · exact moves_checkBoth cfg body state .disable

theorem moves_disableStore (h : p.disableStore env.answers = (p', task')) :
    Moves crypto env p .disableStore p' task' := by
  obtain ⟨hnone, rfl, rfl⟩ |
    ⟨file, file', replaced, answer, hfile, hwrote, rfl, rfl⟩ := persist_cases h
  · exact .noStore hnone
  · rw [ite_self]
    exact .disableStored hfile hwrote

theorem moves_regenerate (cfg : Config) (body : PasswordCode) :
    Moves crypto env p (.regenerate cfg body) p (p.regenerate crypto env.answers cfg body) := by
  unfold App.regenerate
  split
  · exact .noStore ‹_›
  · split
    · exact .ended
    · split
      · exact .ended
      · exact moves_checkBoth cfg body _ .regenerate

theorem moves_regenerateStore (h : p.regenerateStore env = (p', task')) :
    Moves crypto env p .regenerateStore p' task' := by
  unfold App.regenerateStore at h
  split at h
  · cases h
    exact .ended
  · obtain ⟨hnone, rfl, rfl⟩ |
      ⟨file, file', replaced, answer, hfile, hwrote, rfl, rfl⟩ := persist_cases h
    · exact .noStore hnone
    · cases hwrote with
      | spoilt hspoilt => exact .notRegenerated hfile hspoilt
      | replaced hbase => exact .regenerated hfile hbase

theorem moves_of_move (h : p.move crypto env task = some (p', task')) :
    Moves crypto env p task p' task' := by
  cases task with
  | idle | replied | panicked => cases h
  | password cfg ip req =>
    cases h
    exact moves_checkPassword rfl
  | totp cfg req =>
    cases h
    exact .timed
  | totpTimed cfg req now => exact moves_checkLock (Option.some.inj h)
  | totpUnlocked cfg req now =>
    cases h
    exact moves_checkChallenge cfg req now
  | totpChallenged cfg req now key =>
    cases h
    exact moves_readState cfg req now key
  | totpState cfg req now key state =>
    exact moves_evaluateCode (Option.some.inj h)
  | totpBackup cfg req now key state time idx =>
    exact moves_consumeBackup (Option.some.inj h)
  | totpAccepted cfg req key state time =>
    cases h
    exact moves_accept rfl
  | totpRejected req now =>
    cases h
    exact moves_reject rfl
  | setup =>
    cases h
    exact moves_setup
  | setupStore => exact moves_setupStore (Option.some.inj h)
  | verify code =>
    cases h
    exact moves_verifySetup code
  | verifyStore enrolment => exact moves_verifyStore (Option.some.inj h)
  | disable cfg body =>
    cases h
    exact moves_disable cfg body
  | disableStore => exact moves_disableStore (Option.some.inj h)
  | regenerate cfg body =>
    cases h
    exact moves_regenerate cfg body
  | regenerateStore => exact moves_regenerateStore (Option.some.inj h)

theorem Moves.frame (h : Moves crypto env p task p' task') :
    p'.tasks = p.tasks ∧ p'.now = p.now ∧ p'.twoFAKey = p.twoFAKey ∧ p'.config = p.config := by
  cases h <;> exact ⟨rfl, rfl, rfl, rfl⟩

theorem isFirst_start (p : App) (r : Request) : (p.start r).isFirst = true := by
  unfold start
  split
  · rfl
  · split
    all_goals try rfl
    dsimp only
    split <;> rfl

structure View where
  key : Option Bytes
  store : Option StoreFile
  history : History

def view (p : App) : View where
  key := p.twoFAKey
  store := p.twoFAStore
  history := p.history

/--
An invariant with a condition on every task, kept by the steps that meet the
guard.
-/
structure TaskInvariant (crypto : PanelCrypto) (init : App → Prop)
    (guard : App → PanelEvent → Prop) where
  inv : View → Prop
  ok : View → Task → Prop
  inv_init : ∀ p, init p → p.IsInitial ∧ inv p.view
  ok_first : ∀ v task, task.isFirst = true → ok v task
  step : ∀ (p p' : App) id env task', guard p (.step id env) → inv p.view →
    ok p.view (p.tasks id) → Moves crypto env p (p.tasks id) p' task' →
    inv p'.view ∧ ok p'.view task' ∧ ∀ task, ok p.view task → ok p'.view task

theorem setTask_tasks {id : Nat} {P : Task → Prop} (htask : P task)
    (h : ∀ other, P (p.tasks other)) (other : Nat) : P ((p.setTask id task).tasks other) := by
  unfold App.setTask
  by_cases hother : other = id
  · subst hother
    simpa using htask
  · simpa [Function.update_of_ne hother] using h other

theorem TaskInvariant.holds {init : App → Prop}
    {guard : App → PanelEvent → Prop} (I : TaskInvariant crypto init guard)
    (h : (System.ofNext init (App.next crypto)).ReachableBy guard p) :
    I.inv p.view ∧ ∀ id, I.ok p.view (p.tasks id) := by
  induction h with
  | @init q hinit =>
    obtain ⟨hinitial, hinv⟩ := I.inv_init q hinit
    refine ⟨hinv, ?_⟩
    intro id
    rw [hinitial.1]
    exact I.ok_first _ _ rfl
  | @step q q' event _ hguard hnext ih =>
    obtain ⟨hinv, htasks⟩ := ih
    cases event with
    | request id r =>
      simp only [System.ofNext, App.next] at hnext
      split at hnext
      · cases hnext
        have hfirst := I.ok_first q.view _ (isFirst_start q r)
        exact ⟨hinv, setTask_tasks hfirst htasks⟩
      · cases hnext
    | step id env =>
      obtain ⟨⟨after, task⟩, hmove, rfl⟩ := Option.map_eq_some_iff.mp hnext
      have hmoves := moves_of_move hmove
      obtain ⟨hafter, htask, hothers⟩ :=
        I.step q after id env task hguard hinv (htasks id) hmoves
      refine ⟨hafter, setTask_tasks htask ?_⟩
      intro other
      rw [hmoves.frame.1]
      exact hothers _ (htasks other)
    | tick now =>
      obtain ⟨-, hnext⟩ := Option.ite_none_right_eq_some.mp hnext
      cases hnext
      exact ⟨hinv, htasks⟩
    | configure config =>
      cases hnext
      exact ⟨hinv, htasks⟩

end App

end Mieru.Panel
