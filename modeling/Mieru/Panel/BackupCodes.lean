import Mieru.Panel.Steps

/-!
# Backup codes

A login finds its backup code in a record it has read before, and removes the
entry with that index from the record that is stored by then.  If the stored
list is still the one that was read, the entry is the code; otherwise another
code may be removed, none, or the index may lie outside the list.
-/

namespace Mieru.Panel

open Mieru.Foundation

variable {file : StoreFile} {answers : FileAnswers} {idx : Nat} {v v' : View}

theorem StoreFile.base_sublist {st : Persisted} (h : file.base answers = some st) :
    st.backupCodes.Sublist file.backupCodes := by
  unfold StoreFile.base at h
  split at h
  · cases h
    exact List.nil_sublist _
  · cases file with
    | missing =>
      cases h
      exact List.nil_sublist _
    | corrupt => cases h
    | content p =>
      cases h
      exact List.Sublist.refl _

theorem StoreFile.base_backupCodes {st : Persisted} (h : file.base answers = some st)
    (hreads : answers.readFails = false) : st.backupCodes = file.backupCodes := by
  simp only [StoreFile.base, hreads, Bool.false_eq_true, if_false] at h
  cases file with
  | missing =>
    cases h
    rfl
  | corrupt => cases h
  | content p =>
    cases h
    rfl

theorem lt_of_matchBackupCode {crypto : PanelCrypto} {code : Bytes}
    {hashes : List Bytes} (h : matchBackupCode crypto code hashes = some idx) :
    idx < hashes.length := by
  unfold matchBackupCode at h
  dsimp only at h
  split at h
  · cases h
  · exact (List.findIdx?_eq_some_iff_getElem.mp h).1

namespace Consumption

/-- The login has removed its code and nothing else. -/
def Exact (c : Consumption) : Prop :=
  ∃ front back, c.before = front ++ c.code :: back ∧ c.after = front ++ back

end Consumption

namespace App

variable {crypto : PanelCrypto} {p p' : App} {task task' : Task} {env : StepEnv}

theorem lt_of_verdict {req : LoginPayload} {secret : Bytes}
    {state : Persisted} {time : Int} (h : verdict crypto req secret state time = .backup idx) :
    idx < state.backupCodes.length := by
  unfold verdict at h
  split at h
  · cases h
  · split at h
    · rename_i hmatch
      cases h
      exact lt_of_matchBackupCode hmatch
    · cases h

def View.TaskOK (v : View) : Task → Prop
  | .totpBackup _ _ _ _ state _ idx => idx < state.backupCodes.length
  | .panicked => v.store = none
  | _ => True

def View.backupCodes (v : View) : List Bytes :=
  match v.store with
  | none => []
  | some file => file.backupCodes

structure View.CodesOK (v : View) : Prop where
  count : ∀ hash, (v.history.consumptions.map Consumption.code).count hash +
    v.backupCodes.count hash ≤ v.history.storedCodes.count hash
  exactly : ∀ c ∈ v.history.consumptions, c.Exact

theorem View.CodesOK.mono (h : v.CodesOK)
    (hconsumptions : v'.history.consumptions = v.history.consumptions)
    (hstored : v'.history.storedCodes = v.history.storedCodes)
    (hcodes : v'.backupCodes.Sublist v.backupCodes) : v'.CodesOK := by
  refine ⟨?_, by rw [hconsumptions]; exact h.exactly⟩
  intro hash
  rw [hconsumptions, hstored]
  have hle := hcodes.count_le hash
  have hcount := h.count hash
  omega

/-- The stored list is the one a login has found its code in. -/
def Unchanged (p : App) (event : PanelEvent) : Prop :=
  ∀ id env cfg req now key state time idx, event = .step id env →
    p.tasks id = .totpBackup cfg req now key state time idx →
    env.answers.readFails = false ∧ p.backupCodes = state.backupCodes

theorem Spoilt.sublist {file' : StoreFile} (h : Spoilt file file') :
    file'.backupCodes.Sublist file.backupCodes := by
  rcases h with rfl | rfl
  · exact List.Sublist.refl _
  · exact List.nil_sublist _

theorem Wrote.sublist {file' : StoreFile} {update : Persisted → Persisted} {replaced : Bool}
    (h : Wrote file answers update replaced file')
    (hupdate : ∀ st, (update st).backupCodes.Sublist st.backupCodes) :
    file'.backupCodes.Sublist file.backupCodes := by
  cases h with
  | spoilt hspoilt => exact hspoilt.sublist
  | replaced hbase => exact (hupdate _).trans (StoreFile.base_sublist hbase)

theorem view_backupCodes (h : p.twoFAStore = some file) :
    p.view.backupCodes = file.backupCodes := by
  simp [View.backupCodes, view, h]

theorem split_at {codes : List Bytes} (h : idx < codes.length) :
    codes = codes.take idx ++ codes.getD idx [] :: codes.drop (idx + 1) ∧
      codes.eraseIdx idx = codes.take idx ++ codes.drop (idx + 1) := by
  refine ⟨?_, List.eraseIdx_eq_take_drop_succ codes idx⟩
  have hentry : codes.getD idx [] = codes[idx] := by simp [h]
  rw [hentry, List.getElem_cons_drop, List.take_append_drop]

theorem View.CodesOK.renew {hashes : List Bytes} (h : v.CodesOK)
    (hconsumptions : v'.history.consumptions = v.history.consumptions)
    (hstored : v'.history.storedCodes = v.history.storedCodes ++ hashes)
    (hcodes : v'.backupCodes = hashes) : v'.CodesOK := by
  refine ⟨?_, by rw [hconsumptions]; exact h.exactly⟩
  intro hash
  rw [hconsumptions, hstored, hcodes, List.count_append]
  have hcount := h.count hash
  omega

theorem View.CodesOK.consume {codes : List Bytes} (h : v.CodesOK) (hidx : idx < codes.length)
    (hcodes : v.backupCodes = codes) (hstored : v'.history.storedCodes = v.history.storedCodes)
    (hconsumptions : v'.history.consumptions = v.history.consumptions ++
      [⟨codes.getD idx [], codes, codes.eraseIdx idx⟩])
    (hafter : v'.backupCodes = codes.eraseIdx idx) : v'.CodesOK := by
  obtain ⟨hsplit, herase⟩ := split_at hidx
  refine ⟨?_, ?_⟩
  · intro hash
    have hcount := h.count hash
    rw [hcodes, hsplit, List.count_append, List.count_cons] at hcount
    rw [hconsumptions, hstored, hafter, herase, List.map_append,
      List.count_append, List.count_append, List.map_singleton,
      List.count_singleton]
    dsimp only
    omega
  · intro c hc
    rw [hconsumptions] at hc
    rcases List.mem_append.mp hc with hc | hc
    · exact h.exactly c hc
    · rw [List.mem_singleton.mp hc]
      exact ⟨_, _, hsplit, herase⟩

theorem Moves.codesOK (h : Moves crypto env p task p' task')
    (hcodes : p.view.CodesOK) (htask : p.view.TaskOK task)
    (hunchanged : ∀ cfg req now key state time idx,
      task = .totpBackup cfg req now key state time idx →
      env.answers.readFails = false ∧ p.backupCodes = state.backupCodes) :
    p'.view.CodesOK ∧ p'.view.TaskOK task' := by
  cases h with
  | noStore hnone => exact ⟨hcodes, hnone⟩
  | backupCode _ hverdict =>
    exact ⟨hcodes.mono rfl rfl (List.Sublist.refl _), lt_of_verdict hverdict⟩
  | @outside cfg req now key state st time idx file hfile hbase hle =>
    obtain ⟨hreads, hsame⟩ := hunchanged _ _ _ _ _ _ _ rfl
    have hst := StoreFile.base_backupCodes hbase hreads
    simp only [backupCodes, hfile] at hsame
    rw [hst, hsame] at hle
    exact absurd htask (Nat.not_lt.mpr hle)
  | notRemoved hfile hwrote =>
    refine ⟨hcodes.mono rfl rfl ?_, trivial⟩
    rw [view_backupCodes hfile]
    exact hwrote.sublist fun st => List.eraseIdx_sublist _ _
  | @removed cfg req now key state st time idx file hfile hbase hlt =>
    obtain ⟨hreads, hsame⟩ := hunchanged _ _ _ _ _ _ _ rfl
    have hst := StoreFile.base_backupCodes hbase hreads
    simp only [backupCodes, hfile] at hsame
    refine ⟨hcodes.consume hlt ?_ rfl ?_ rfl, trivial⟩
    · rw [view_backupCodes hfile, hst]
    · rw [hst, hsame]
      rfl
  | setupStored hfile hwrote =>
    refine ⟨hcodes.mono rfl rfl ?_, trivial⟩
    rw [view_backupCodes hfile]
    exact hwrote.sublist fun st => List.Sublist.refl _
  | notEnabled hfile hspoilt | notRegenerated hfile hspoilt =>
    refine ⟨hcodes.mono rfl rfl ?_, trivial⟩
    rw [view_backupCodes hfile]
    exact hspoilt.sublist
  | enabled => exact ⟨hcodes.renew rfl rfl rfl, trivial⟩
  | regenerated => exact ⟨hcodes.renew rfl rfl rfl, trivial⟩
  | disableStored hfile hwrote =>
    refine ⟨hcodes.mono rfl rfl ?_, trivial⟩
    rw [view_backupCodes hfile]
    exact hwrote.sublist fun st => List.nil_sublist _
  | _ => exact ⟨hcodes.mono rfl rfl (List.Sublist.refl _), trivial⟩

theorem Moves.store_none (h : Moves crypto env p task p' task')
    (hnone : p.twoFAStore = none) : p'.twoFAStore = none := by
  cases h with
  | notRemoved hfile | removed hfile | setupStored hfile | notEnabled hfile
  | enabled hfile | disableStored hfile | notRegenerated hfile
  | regenerated hfile => cases hnone.symm.trans hfile
  | _ => exact hnone

def soundCodes (crypto : PanelCrypto) : TaskInvariant crypto IsInitial Unchanged where
  inv := View.CodesOK
  ok := View.TaskOK
  inv_init p hinit := by
    refine ⟨hinit, ?_⟩
    obtain ⟨-, -, -, -, hstored, hconsumptions, -⟩ := hinit
    refine ⟨?_, ?_⟩
    · intro hash
      simp only [view, hconsumptions, hstored, List.map_nil, List.count_nil, Nat.zero_add]
      exact Nat.le_refl _
    · intro c hc
      simp [view, hconsumptions] at hc
  ok_first v task hfirst := by
    cases task <;> trivial
  step p p' id env task' hguard hcodes htask hmoves := by
    obtain ⟨hafter, htask'⟩ := hmoves.codesOK hcodes htask fun cfg req now key state time idx =>
        hguard id env cfg req now key state time idx rfl
    refine ⟨hafter, htask', ?_⟩
    intro other hother
    cases other with
    | totpBackup => exact hother
    | panicked => exact hmoves.store_none hother
    | _ => trivial

/--
If the stored list is the one a login has read when the login removes its
code, then no code completes more logins than it was stored, every login
removes its code and nothing else, and no removal leaves the list.
-/
theorem backup_codes_single_use (h : (panelSystem crypto).ReachableBy Unchanged p) :
    (∀ hash, (p.history.consumptions.map Consumption.code).count hash ≤
        p.history.storedCodes.count hash) ∧ (∀ c ∈ p.history.consumptions, c.Exact) ∧
      (p.twoFAStore ≠ none → ∀ id, p.tasks id ≠ .panicked) := by
  obtain ⟨hcodes, htasks⟩ := (soundCodes crypto).holds h
  refine ⟨?_, hcodes.exactly, ?_⟩
  · intro hash
    exact Nat.le_of_add_right_le (hcodes.count hash)
  · intro hstore id hpanicked
    have htask := htasks id
    rw [hpanicked] at htask
    exact hstore htask

def twoCodes : List Bytes := [List.replicate 8 65, List.replicate 8 66]

def codesPanel : App :=
  panelWith { enabled := true, secret := [1], backupCodes := twoCodes }

def backupRequest : Request :=
  codeRequest (signChallengeToken plainCrypto [97] [99] challengeTTL 0) (List.replicate 8 65)

def checkUnchanged (p : App) : PanelEvent → Bool
  | .step id env =>
    match p.tasks id with
    | .totpBackup _ _ _ _ state _ _ =>
      !env.answers.readFails && p.backupCodes == state.backupCodes
    | _ => true
  | _ => true

theorem unchanged_of_check (p : App) (event : PanelEvent)
    (h : p.checkUnchanged event = true) : p.Unchanged event := by
  rintro id env cfg req now key state time idx rfl htask
  simp only [checkUnchanged, htask, Bool.and_eq_true, beq_iff_eq] at h
  exact ⟨by simpa using h.1, h.2⟩

def codesReport (p : App) : List Consumption × Bool :=
  (p.history.consumptions, (List.range 3).any fun id =>
    match p.tasks id with
    | .panicked => true
    | _ => false)

/-- One login after the other with the first code. -/
theorem backup_codes_single_use_serial : ∃ p, (panelSystem plainCrypto).ReachableBy Unchanged p ∧
      p.codesReport = ([⟨List.replicate 8 65, twoCodes, [List.replicate 8 66]⟩], false) ∧
      (∀ hash, (p.history.consumptions.map Consumption.code).count hash ≤
        p.history.storedCodes.count hash) ∧ (∀ c ∈ p.history.consumptions, c.Exact) ∧
      (p.twoFAStore ≠ none → ∀ id, p.tasks id ≠ .panicked) := by
  obtain ⟨p, hreachable, hreport⟩ : ∃ p, (panelSystem plainCrypto).ReachableBy Unchanged p ∧
      p.codesReport = ([⟨List.replicate 8 65, twoCodes, [List.replicate 8 66]⟩], false) :=
    System.exists_reachableBy unchanged_of_check
      (show codesPanel.IsInitial from isInitial_panelWith _)
      ([.request 0 backupRequest] ++ steps 0 7 ++ [.request 1 backupRequest] ++ steps 1 6)
      (by decide +kernel)
  exact ⟨p, hreachable, hreport, backup_codes_single_use hreachable⟩

/--
Three logins find the first code at the same time.  Two of them succeed, the
second one removes the other code, and the third one indexes an empty list.
-/
theorem backup_code_used_twice : ∃ p, (panelSystem plainCrypto).Reachable p ∧
      p.history.storedCodes = twoCodes ∧
      p.codesReport = ([⟨List.replicate 8 65, twoCodes, [List.replicate 8 66]⟩,
        ⟨List.replicate 8 65, [List.replicate 8 66], []⟩], true) := by
  exact System.exists_reachable (show codesPanel.IsInitial from isInitial_panelWith _)
    ((List.range 3).flatMap (fun id => [.request id backupRequest] ++ steps id 5) ++
      steps 0 2 ++ steps 1 2 ++ steps 2 1) (by decide +kernel)

end App

end Mieru.Panel
