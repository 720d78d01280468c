import Pingsix.Lib.Shelf
import Pingsix.LogRotation

/-!
# Soundness of log rotation

Where the contents of the log file and of its backups are after a rotation, and
after one that stopped anywhere on its way.
-/

namespace Pingsix.Logging

open Shelf

variable {α : Type} {faults : Faults} {name : String} {maxBackups : UInt32} {n i j : Nat} {dir dir' dir'' : Directory α}

/-! ## Names -/

/-- The current file, and the backups by their index. -/
def nameAt (name : String) : Nat → String
  | 0 => name
  | index + 1 => backup name (index + 1)

def places (name : String) (dir : Directory α) (k : Nat) : Option α := dir.lookup (.text (nameAt name k))

theorem backup_ne_name (index : Nat) : backup name index ≠ name := by
  intro h
  have hlen := congrArg (fun s => s.toList.length) h
  simp only [backup, String.toList_append, List.length_append] at hlen
  have hdot : ".".toList.length = 1 := rfl
  omega

theorem nameAt_inj (h : nameAt name i = nameAt name j) : i = j := by
  cases i with
  | zero =>
    cases j with
    | zero => rfl
    | succ j => exact absurd h.symm (backup_ne_name (j + 1))
  | succ i =>
    cases j with
    | zero => exact absurd h (backup_ne_name (i + 1))
    | succ j => exact Decimal.repr_injective ((String.append_right_inj _).mp h)

theorem isStale_nameAt {k : Nat} (hk : k < 2 ^ 32) :
    isStale name maxBackups (.text (nameAt name k)) = true ↔ maxBackups.toNat < k := by
  cases k with
  | zero =>
    have hnone : Text.stripPrefix name (name ++ ".") = none := by
      cases hs : Text.stripPrefix name (name ++ ".") with
      | none => rfl
      | some rest =>
        have hlen := congrArg (fun s => s.toList.length) (Text.stripPrefix_eq_some.mp hs)
        simp only [String.toList_append, List.length_append] at hlen
        have hdot : ".".toList.length = 1 := rfl
        omega
    have hstale : isStale name maxBackups (.text (nameAt name 0)) = false := by
      unfold isStale
      rw [show (OsString.text (nameAt name 0)).toStr = some name from rfl, Option.bind_some, hnone]
    rw [hstale]
    simp
  | succ k =>
    have hsome : Text.stripPrefix (backup name (k + 1)) (name ++ ".") = some (k + 1).repr := Text.stripPrefix_eq_some.mpr rfl
    have hstale : isStale name maxBackups (.text (nameAt name (k + 1))) =
        (Decimal.parse 32 (k + 1).repr).any fun index => maxBackups.toNat < index := by
      unfold isStale
      rw [show (OsString.text (nameAt name (k + 1))).toStr = some (backup name (k + 1)) from rfl, Option.bind_some, hsome]
    rw [hstale, Decimal.parse_repr hk]
    simp

/-! ## One operation -/

/-- How a renaming to the next place ends. -/
inductive Renamed (faults : Faults) (name : String) (i : Nat) (dir : Directory α) : Outcome α → Prop
  | failed (fault : faults (.rename (nameAt name i)) = true) : Renamed faults name i dir (.error .other, dir)
  | missing (absent : places name dir i = none) :
      Renamed faults name i dir (.error .notFound, dir)
  | moved {dir' : Directory α} (present : (places name dir i).isSome = true)
      (moved : ∀ k, places name dir' k = moveUp i (places name dir) k)
      (frame : ∀ file, file ≠ .text (nameAt name i) → file ≠ .text (nameAt name (i + 1)) →
        dir'.lookup file = dir.lookup file) : Renamed faults name i dir (.ok (), dir')

theorem renamed (faults : Faults) (name : String) (i : Nat) (dir : Directory α) :
    Renamed faults name i dir (rename faults (nameAt name i) (nameAt name (i + 1)) dir) := by
  unfold rename
  cases hfault : faults (.rename (nameAt name i)) with
  | true => exact .failed hfault
  | false =>
    cases hlookup : dir.lookup (.text (nameAt name i)) with
    | none => exact .missing hlookup
    | some contents =>
      have hlook : ∀ file, ((dir.erase (.text (nameAt name i))).insert (.text (nameAt name (i + 1))) contents).lookup file =
          if file = .text (nameAt name (i + 1)) then some contents
          else if file = .text (nameAt name i) then none else dir.lookup file := by
        intro file
        rw [HashMap.lookup_insert, HashMap.lookup_erase]
      refine .moved (by rw [places, hlookup]; rfl) ?_ ?_
      · intro k
        have hnext : OsString.text (nameAt name k) = .text (nameAt name (i + 1)) ↔ k = i + 1 :=
          ⟨fun h => nameAt_inj (OsString.text.inj h), fun h => by rw [h]⟩
        have hsame : OsString.text (nameAt name k) = .text (nameAt name i) ↔ k = i :=
          ⟨fun h => nameAt_inj (OsString.text.inj h), fun h => by rw [h]⟩
        have hplace : places name dir i = some contents := hlookup
        unfold moveUp
        rw [hplace, if_pos Option.isSome_some]
        refine (hlook _).trans ?_
        simp only [hnext, hsame]
        rfl
      · intro file hsource htarget
        rw [hlook, if_neg htarget, if_neg hsource]

/-! ## The loops -/

/-- Everything from a place on has been moved up. -/
structure MovedFrom (name : String) (n j : Nat) (dir dir' : Directory α) : Prop where
  stands : ∀ k, places name dir' k = lifted j n (places name dir) k
  frame : ∀ file, (∀ k ≤ n, file ≠ .text (nameAt name k)) → dir'.lookup file = dir.lookup file

theorem movedFrom_self (name : String) (n : Nat) (dir : Directory α) : MovedFrom name n n dir dir :=
  ⟨fun _ => (lifted_self n _).symm, fun _ _ => rfl⟩

theorem MovedFrom.step (h : MovedFrom name n (i + 1) dir dir') (hi : i < n)
    (hmoved : ∀ k, places name dir'' k = moveUp i (places name dir') k)
    (hframe : ∀ file, file ≠ .text (nameAt name i) → file ≠ .text (nameAt name (i + 1)) →
      dir''.lookup file = dir'.lookup file) : MovedFrom name n i dir dir'' := by
  constructor
  · intro k
    have hsame : places name dir' = lifted (i + 1) n (places name dir) := funext h.stands
    rw [hmoved, hsame, moveUp_lifted hi]
  · intro file hfile
    rw [hframe file (hfile i (by omega)) (hfile (i + 1) hi), h.frame file hfile]

theorem MovedFrom.pass (h : MovedFrom name n (i + 1) dir dir') (hi : i < n) (habsent : places name dir' i = none) :
    MovedFrom name n i dir dir' :=
  h.step hi (fun _ => (moveUp_none habsent).symm) fun _ _ _ => rfl

theorem shiftBackups_cases (faults : Faults) (index : Nat) (h : MovedFrom name n (index + 1) dir dir') (hn : index < n) :
    ∃ r j dir'', shiftBackups faults name index dir' = (r, dir'') ∧ MovedFrom name n j dir dir'' ∧ 1 ≤ j ∧ j ≤ index + 1 ∧
      (r = .ok () ∧ j = 1 ∨ r = .error .other ∧ ∃ op, faults op = true) := by
  induction index generalizing dir' with
  | zero => exact ⟨.ok (), 1, dir', rfl, h, Nat.le_refl 1, Nat.le_refl 1, .inl ⟨rfl, rfl⟩⟩
  | succ index ih =>
    have hrenamed := renamed faults name (index + 1) dir'
    unfold shiftBackups
    rw [show rename faults (backup name (index + 1)) (backup name (index + 2)) dir' =
      rename faults (nameAt name (index + 1)) (nameAt name (index + 2)) dir' from rfl]
    generalize rename faults (nameAt name (index + 1)) (nameAt name (index + 2)) dir' = outcome at hrenamed ⊢
    cases hrenamed with
    | failed fault =>
      exact ⟨_, index + 2, dir', rfl, h, by omega, Nat.le_refl _, .inr ⟨rfl, _, fault⟩⟩
    | missing absent =>
      obtain ⟨r, j, dir'', hrun, hmoved, hpos, hle, hr⟩ := ih (h.pass hn absent) (by omega)
      exact ⟨r, j, dir'', hrun, hmoved, hpos, by omega, hr⟩
    | moved present moved frame =>
      obtain ⟨r, j, dir'', hrun, hmoved, hpos, hle, hr⟩ := ih (h.step hn moved frame) (by omega)
      exact ⟨r, j, dir'', hrun, hmoved, hpos, by omega, hr⟩

/-- Files are left alone or, when stale, removed. -/
def Cleaned (name : String) (maxBackups : UInt32) (dir dir' : Directory α) : Prop :=
  ∀ file, dir'.lookup file = dir.lookup file ∨ isStale name maxBackups file = true ∧ dir'.lookup file = none

theorem Cleaned.trans (h : Cleaned name maxBackups dir dir') (h' : Cleaned name maxBackups dir' dir'') :
    Cleaned name maxBackups dir dir'' := by
  intro file
  cases h' file with
  | inr hgone => exact .inr hgone
  | inl hsame =>
    rw [hsame]
    exact h file

theorem removeFile_cases (faults : Faults) {file : OsString} {dir : Directory α} (h : dir.containsKey file = true) :
    removeFile faults file dir = (.error .other, dir) ∧ faults (.removeFile file) = true ∨
      removeFile faults file dir = (.ok (), dir.erase file) := by
  unfold removeFile
  by_cases hfault : faults (.removeFile file) = true
  · rw [if_pos hfault]
    exact .inl ⟨rfl, hfault⟩
  · rw [if_neg hfault, if_pos h]
    exact .inr rfl

theorem cleaned_erase {file : OsString} (h : isStale name maxBackups file = true) :
    Cleaned name maxBackups dir (dir.erase file) := by
  intro other
  rw [HashMap.lookup_erase]
  by_cases heq : other = file
  · rw [if_pos heq, heq]
    exact .inr ⟨h, rfl⟩
  · rw [if_neg heq]
    exact .inl rfl

/-- A run to the end has removed every stale file of its list. -/
theorem removeStale_cases (faults : Faults) (name : String) (maxBackups : UInt32) {entries : List OsString}
    (hnodup : entries.Nodup) {dir : Directory α} (hkeys : ∀ file ∈ entries, dir.containsKey file = true) :
    ∃ r dir', removeStale faults name maxBackups entries dir = (r, dir') ∧ Cleaned name maxBackups dir dir' ∧
      (r = .ok () ∧ (∀ file ∈ entries, isStale name maxBackups file = true → dir'.lookup file = none) ∨
        (∃ e, r = .error e) ∧ ∃ op, faults op = true) := by
  have hself : ∀ dir : Directory α, Cleaned name maxBackups dir dir := fun _ _ => .inl rfl
  induction entries generalizing dir with
  | nil =>
    unfold removeStale
    by_cases hfault : faults (.nextEntry 0) = true
    · rw [if_pos hfault]
      exact ⟨_, dir, rfl, hself dir, .inr ⟨⟨_, rfl⟩, _, hfault⟩⟩
    · rw [if_neg hfault]
      exact ⟨_, dir, rfl, hself dir, .inl ⟨rfl, nofun⟩⟩
  | cons entry rest ih =>
    obtain ⟨hentry, hrest⟩ := List.forall_mem_cons.mp hkeys
    obtain ⟨hnot, hnodup⟩ := List.nodup_cons.mp hnodup
    unfold removeStale
    by_cases hfault : faults (.nextEntry (rest.length + 1)) = true
    · rw [if_pos hfault]
      exact ⟨_, dir, rfl, hself dir, .inr ⟨⟨_, rfl⟩, _, hfault⟩⟩
    · rw [if_neg hfault]
      by_cases hstale : isStale name maxBackups entry = true
      · rw [if_pos hstale]
        cases removeFile_cases faults hentry with
        | inl hfailed =>
          rw [hfailed.1]
          exact ⟨_, dir, rfl, hself dir, .inr ⟨⟨_, rfl⟩, _, hfailed.2⟩⟩
        | inr hremoved =>
          have hleft : ∀ file ∈ rest, HashMap.containsKey (dir.erase entry) file = true := by
            intro file hfile
            have hne : file ≠ entry := fun h => hnot (h ▸ hfile)
            have hkey := hrest file hfile
            unfold HashMap.containsKey at hkey ⊢
            rwa [HashMap.lookup_erase, if_neg hne]
          obtain ⟨r, dir', hrun, hcleaned, hr⟩ := ih hnodup hleft
          rw [hremoved]
          refine ⟨r, dir', hrun, (cleaned_erase hstale).trans hcleaned, ?_⟩
          cases hr with
          | inr herror => exact .inr herror
          | inl hok =>
            refine .inl ⟨hok.1, List.forall_mem_cons.mpr ⟨fun _ => ?_, hok.2⟩⟩
            cases hcleaned entry with
            | inl hsame => rw [hsame, HashMap.lookup_erase, if_pos rfl]
            | inr hnone => exact hnone.2
      · rw [if_neg hstale]
        obtain ⟨r, dir', hrun, hcleaned, hr⟩ := ih hnodup hrest
        refine ⟨r, dir', hrun, hcleaned, ?_⟩
        cases hr with
        | inr herror => exact .inr herror
        | inl hok => exact .inl ⟨hok.1, List.forall_mem_cons.mpr ⟨fun h => absurd h hstale, hok.2⟩⟩

/-! ## Rotations -/

/-- What stands in the directory when everything from a place on has been moved, whatever stale files are removed. -/
structure Stopped (name : String) (maxBackups : UInt32) (dir : Directory α) (j : Nat) (dir' : Directory α) : Prop where
  stands : ∀ k ≤ maxBackups.toNat, places name dir' k = lifted j maxBackups.toNat (places name dir) k
  others : ∀ file, (∀ k ≤ maxBackups.toNat, file ≠ .text (nameAt name k)) →
    dir'.lookup file = dir.lookup file ∨ isStale name maxBackups file = true ∧ dir'.lookup file = none

theorem Cleaned.stands (h : Cleaned name maxBackups dir dir') {k : Nat} (hk : k ≤ maxBackups.toNat) :
    places name dir' k = places name dir k := by
  have hmax := maxBackups.toNat_lt
  cases h (.text (nameAt name k)) with
  | inl hsame => exact hsame
  | inr hstale =>
    have hlt := (isStale_nameAt (by omega)).mp hstale.1
    omega

theorem not_place_of_stale {file : OsString} (h : isStale name maxBackups file = true) :
    ∀ k ≤ maxBackups.toNat, file ≠ .text (nameAt name k) := by
  intro k hk hfile
  have hmax := maxBackups.toNat_lt
  rw [hfile, isStale_nameAt (by omega)] at h
  omega

theorem stopped_of_movedFrom (hcleaned : Cleaned name maxBackups dir dir')
    (hmoved : MovedFrom name maxBackups.toNat j dir' dir'') : Stopped name maxBackups dir j dir'' := by
  constructor
  · intro k hk
    rw [hmoved.stands, lifted_congr (fun k hk => hcleaned.stands hk) hk]
  · intro file hfile
    rw [hmoved.frame file hfile]
    exact hcleaned file

theorem rotateLogFile_cases (faults : Faults) (parent : Option String) (name : String) (maxBackups : UInt32)
    (hmax : 0 < maxBackups.toNat) (dir : Directory α) : ∃ r j dir',
      rotateLogFile faults ⟨parent, some name⟩ maxBackups dir = (r, dir') ∧ j ≤ maxBackups.toNat ∧
        Stopped name maxBackups dir j dir' ∧
        (r = .ok () ∧ j = 0 ∧ (places name dir 0).isSome = true ∧
            (∀ file, isStale name maxBackups file = true → dir'.lookup file = none) ∨
          (∃ e, r = .error e) ∧ 0 < j ∧
            ((∃ op, faults op = true) ∨ parent.getD "." = "" ∨ places name dir 0 = none)) := by
  have hnothing : ∀ {dir' : Directory α}, Cleaned name maxBackups dir dir' →
      Stopped name maxBackups dir maxBackups.toNat dir' := fun hcleaned =>
    stopped_of_movedFrom hcleaned (movedFrom_self _ _ _)
  have hself : Cleaned name maxBackups dir dir := fun _ => .inl rfl
  have hne : maxBackups ≠ 0 := by
    rintro rfl
    exact absurd hmax (by decide)
  unfold rotateLogFile
  dsimp only
  by_cases hread : faults .readDir = true
  · rw [if_pos hread]
    exact ⟨_, _, dir, rfl, Nat.le_refl _, hnothing hself, .inr ⟨⟨_, rfl⟩, hmax, .inl ⟨_, hread⟩⟩⟩
  · rw [if_neg hread]
    by_cases hbare : parent.getD "." = ""
    · rw [if_pos hbare]
      exact ⟨_, _, dir, rfl, Nat.le_refl _, hnothing hself, .inr ⟨⟨_, rfl⟩, hmax, .inr (.inl hbare)⟩⟩
    · rw [if_neg hbare]
      have hkeys : ∀ file ∈ dir.keys, dir.containsKey file = true := fun file hfile => AList.lookup_isSome.mpr hfile
      obtain ⟨r, cleaned, hrun, hcleaned, hr⟩ := removeStale_cases faults name maxBackups dir.nodupKeys hkeys
      have hrun : removeStale faults name maxBackups dir.keys dir = (r, cleaned) := hrun
      rw [hrun]
      cases hr with
      | inr herror =>
        obtain ⟨⟨e, rfl⟩, hfault⟩ := herror
        exact ⟨_, _, cleaned, rfl, Nat.le_refl _, hnothing hcleaned, .inr ⟨⟨_, rfl⟩, hmax, .inl hfault⟩⟩
      | inl hok =>
        obtain ⟨rfl, hgone⟩ := hok
        dsimp only
        rw [if_neg hne]
        have hstart : MovedFrom name maxBackups.toNat (maxBackups.toNat - 1 + 1) cleaned cleaned := by
          rw [Nat.sub_add_cancel hmax]
          exact movedFrom_self _ _ _
        obtain ⟨r, j, shifted, hshift, hmoved, hpos, hle, hr⟩ :=
          shiftBackups_cases faults (maxBackups.toNat - 1) hstart (by omega)
        have hstopped := stopped_of_movedFrom hcleaned hmoved
        rw [hshift]
        cases hr with
        | inr herror =>
          obtain ⟨rfl, hfault⟩ := herror
          exact ⟨_, j, shifted, rfl, by omega, hstopped, .inr ⟨⟨_, rfl⟩, hpos, .inl hfault⟩⟩
        | inl hok =>
          obtain ⟨rfl, rfl⟩ := hok
          have hrenamed := renamed faults name 0 shifted
          show ∃ r j dir', rename faults (nameAt name 0) (nameAt name 1) shifted = (r, dir') ∧ _
          generalize rename faults (nameAt name 0) (nameAt name 1) shifted = outcome at hrenamed ⊢
          cases hrenamed with
          | failed fault => exact ⟨_, 1, shifted, rfl, hmax, hstopped, .inr ⟨⟨_, rfl⟩, Nat.one_pos, .inl ⟨_, fault⟩⟩⟩
          | missing absent =>
            have hnone : places name dir 0 = none := by
              rw [← hcleaned.stands (Nat.zero_le _), ← absent, hmoved.stands 0]
              rfl
            exact ⟨_, 1, shifted, rfl, hmax, hstopped, .inr ⟨⟨_, rfl⟩, Nat.one_pos, .inr (.inr hnone)⟩⟩
          | @moved dir' present moved frame =>
            have hall := hmoved.step hmax moved frame
            refine ⟨_, 0, dir', rfl, Nat.zero_le _, stopped_of_movedFrom hcleaned hall, .inl ⟨rfl, rfl, ?_, ?_⟩⟩
            · rw [hmoved.stands 0] at present
              rw [← hcleaned.stands (Nat.zero_le _)]
              simpa [lifted] using present
            · intro file hstale
              rw [hall.frame file (not_place_of_stale hstale)]
              by_cases hkey : file ∈ dir.keys
              · exact hgone file hkey hstale
              · cases hcleaned file with
                | inl hsame =>
                  rw [hsame]
                  exact AList.lookup_eq_none.mpr hkey
                | inr hnone => exact hnone.2

/-! ## What a rotation does -/

/-- Everything is one place up: what stood on the last place is put over if something stood below it, and of the other
files only such are gone that read as later backups, among them all that are. -/
structure Rotated (name : String) (maxBackups : UInt32) (dir dir' : Directory α) : Prop where
  current : (places name dir 0).isSome = true ∧ places name dir' 0 = none
  moved : ∀ k < maxBackups.toNat, (places name dir k).isSome = true → places name dir' (k + 1) = places name dir k
  gaps : ∀ k < maxBackups.toNat, places name dir k = none →
    places name dir' (k + 1) = if k + 1 = maxBackups.toNat then places name dir (k + 1) else none
  later : ∀ k, maxBackups.toNat < k → k < 2 ^ 32 → places name dir' k = none
  others : ∀ file, (∀ k ≤ maxBackups.toNat, file ≠ .text (nameAt name k)) →
    dir'.lookup file = dir.lookup file ∨ isStale name maxBackups file = true ∧ dir'.lookup file = none

/-- Nothing is lost, but for what stood on the last place if something stood below it, and nothing out of order. -/
structure Interrupted (name : String) (maxBackups : UInt32) (dir dir' : Directory α) : Prop where
  current : places name dir' 0 = places name dir 0
  retained : Retains maxBackups.toNat
    (fun k => k = maxBackups.toNat ∧ (places name dir (maxBackups.toNat - 1)).isSome = true) (places name dir) (places name dir')
  others : ∀ file, (∀ k ≤ maxBackups.toNat, file ≠ .text (nameAt name k)) →
    dir'.lookup file = dir.lookup file ∨ isStale name maxBackups file = true ∧ dir'.lookup file = none

/-- A rotation, one that fails, and a second one after it, which may put over one more backup unless the first left all
below that one where they stood. -/
structure RotationEffects (parent : Option String) (name : String) (maxBackups : UInt32) (dir : Directory α) : Prop where
  success : ∀ faults dir', rotateLogFile faults ⟨parent, some name⟩ maxBackups dir = (.ok (), dir') →
    Rotated name maxBackups dir dir'
  failure : ∀ faults e dir', rotateLogFile faults ⟨parent, some name⟩ maxBackups dir = (.error e, dir') →
    Interrupted name maxBackups dir dir'
  again : ∀ faults e dir' faults' dir'', rotateLogFile faults ⟨parent, some name⟩ maxBackups dir = (.error e, dir') →
    rotateLogFile faults' ⟨parent, some name⟩ maxBackups dir' = (.ok (), dir'') →
      Rotated name maxBackups dir' dir'' ∧
        Retains maxBackups.toNat (fun k => maxBackups.toNat ≤ k + 1) (places name dir) (places name dir'') ∧
          ((∀ k, k + 1 < maxBackups.toNat → places name dir' k = places name dir k) →
            Retains maxBackups.toNat (fun k => k = maxBackups.toNat) (places name dir) (places name dir''))
  completes : parent.getD "." ≠ "" → (places name dir 0).isSome = true → ∀ faults e dir',
    rotateLogFile faults ⟨parent, some name⟩ maxBackups dir = (.error e, dir') →
      ∃ dir'', rotateLogFile (fun _ => false) ⟨parent, some name⟩ maxBackups dir' = (.ok (), dir'')

theorem Stopped.rotated (h : Stopped name maxBackups dir 0 dir') (hmax : 0 < maxBackups.toNat)
    (hcurrent : (places name dir 0).isSome = true) (hgone : ∀ file, isStale name maxBackups file = true → dir'.lookup file = none) :
    Rotated name maxBackups dir dir' := by
  constructor
  · refine ⟨hcurrent, ?_⟩
    rw [h.stands 0 (Nat.zero_le _)]
    simp [lifted, Nat.ne_of_lt hmax]
  · intro k hk hs
    obtain ⟨c, hc⟩ := Option.isSome_iff_exists.mp hs
    rw [h.stands (k + 1) hk]
    unfold lifted
    rw [if_neg (Nat.not_lt_zero _), if_neg (Nat.not_lt.mpr hk)]
    by_cases hlast : k + 1 = maxBackups.toNat
    · rw [if_pos hlast, if_pos hmax, ← hlast, Nat.add_sub_cancel, hc]
      rfl
    · rw [if_neg hlast, if_neg (Nat.succ_ne_zero k), Nat.add_sub_cancel]
  · intro k hk hnone
    rw [h.stands (k + 1) hk]
    unfold lifted
    rw [if_neg (Nat.not_lt_zero _), if_neg (Nat.not_lt.mpr hk)]
    by_cases hlast : k + 1 = maxBackups.toNat
    · rw [if_pos hlast, if_pos hlast, if_pos hmax, ← hlast, Nat.add_sub_cancel, hnone]
      rfl
    · rw [if_neg hlast, if_neg hlast, if_neg (Nat.succ_ne_zero k), Nat.add_sub_cancel, hnone]
  · intro k hk hlt
    exact hgone _ ((isStale_nameAt hlt).mpr hk)
  · exact h.others

theorem Stopped.interrupted (h : Stopped name maxBackups dir j dir') (hj : 0 < j) :
    Interrupted name maxBackups dir dir' := by
  constructor
  · rw [h.stands 0 (Nat.zero_le _)]
    unfold lifted
    rw [if_pos hj]
  · have hretained := (retains_lifted j maxBackups.toNat (places name dir)).congr h.stands
    exact hretained.mono fun k _ hk => ⟨hk.1, hk.2.2⟩
  · exact h.others

/-- Two moves one after the other, the first of which stopped. -/
theorem Stopped.twice (h : Stopped name maxBackups dir j dir') (h' : Stopped name maxBackups dir' 0 dir'') {lost : Nat → Prop}
    (hlost : ∀ k ≤ maxBackups.toNat, ¬lost k → (places name dir k).isSome = true →
      ¬(k = maxBackups.toNat ∧ j < maxBackups.toNat ∧ (places name dir (maxBackups.toNat - 1)).isSome = true) ∧
        ¬(raised j maxBackups.toNat k = maxBackups.toNat ∧ 0 < maxBackups.toNat ∧
          (lifted j maxBackups.toNat (places name dir) (maxBackups.toNat - 1)).isSome = true)) :
    Retains maxBackups.toNat lost (places name dir) (places name dir'') := by
  apply (retains_twice hlost).congr
  intro k hk
  rw [h'.stands k hk, lifted_congr h.stands hk]

theorem rotated_of_ok {parent : Option String} (hmax : 0 < maxBackups.toNat)
    (h : rotateLogFile faults ⟨parent, some name⟩ maxBackups dir = (.ok (), dir')) :
    Stopped name maxBackups dir 0 dir' ∧ Rotated name maxBackups dir dir' := by
  obtain ⟨r, j, stopped, hrun, _, hstopped, hr⟩ := rotateLogFile_cases faults parent name maxBackups hmax dir
  rw [h] at hrun
  cases hrun
  cases hr with
  | inr herror =>
    obtain ⟨⟨e, he⟩, _⟩ := herror
    cases he
  | inl hok =>
    obtain ⟨_, rfl, hcurrent, hgone⟩ := hok
    exact ⟨hstopped, hstopped.rotated hmax hcurrent hgone⟩

theorem stopped_of_error {parent : Option String} {e : IoError} (hmax : 0 < maxBackups.toNat)
    (h : rotateLogFile faults ⟨parent, some name⟩ maxBackups dir = (.error e, dir')) :
    ∃ j ≤ maxBackups.toNat, 0 < j ∧ Stopped name maxBackups dir j dir' := by
  obtain ⟨r, j, stopped, hrun, hle, hstopped, hr⟩ := rotateLogFile_cases faults parent name maxBackups hmax dir
  rw [h] at hrun
  cases hrun
  cases hr with
  | inl hok => cases hok.1
  | inr herror => exact ⟨j, hle, herror.2.1, hstopped⟩

theorem rotation_effects (parent : Option String) (name : String) (maxBackups : UInt32) (hmax : 0 < maxBackups.toNat)
    (dir : Directory α) : RotationEffects parent name maxBackups dir := by
  constructor
  · intro faults dir' h
    exact (rotated_of_ok hmax h).2
  · intro faults e dir' h
    obtain ⟨j, _, hj, hstopped⟩ := stopped_of_error hmax h
    exact hstopped.interrupted hj
  · intro faults e dir' faults' dir'' h h'
    obtain ⟨j, hle, hj, hstopped⟩ := stopped_of_error hmax h
    obtain ⟨hsecond, hrotated⟩ := rotated_of_ok hmax h'
    refine ⟨hrotated, hstopped.twice hsecond fun k hk hlost _ => ?_, fun hbelow => ?_⟩
    · have hraised : raised j maxBackups.toNat k ≤ k + 1 := by
        unfold raised
        split
        · omega
        · split <;> omega
      exact ⟨fun h => by omega, fun h => by omega⟩
    · refine hstopped.twice hsecond fun k hk hlost _ => ⟨fun h => hlost h.1, fun h => ?_⟩
      have hempty : lifted j maxBackups.toNat (places name dir) (maxBackups.toNat - 1) = none ∨ j = maxBackups.toNat := by
        by_cases hnone : j = maxBackups.toNat
        · exact .inr hnone
        · refine .inl (lifted_below (by omega) fun k hk => ?_)
          rw [← hstopped.stands k (by omega), hbelow k hk]
      cases hempty with
      | inl hempty =>
        rw [hempty] at h
        cases h.2.2
      | inr hnothing =>
        have hsame : raised j maxBackups.toNat k = k := by
          unfold raised
          rw [if_pos (by omega)]
        omega
  · intro hparent hcurrent faults e dir' h
    obtain ⟨j, _, hj, hstopped⟩ := stopped_of_error hmax h
    obtain ⟨r, i, dir'', hrun, _, _, hr⟩ := rotateLogFile_cases (fun _ => false) parent name maxBackups hmax dir'
    cases hr with
    | inl hok =>
      rw [hok.1] at hrun
      exact ⟨dir'', hrun⟩
    | inr herror =>
      have hkept := (hstopped.interrupted hj).current
      cases herror.2.2 with
      | inl hfault =>
        obtain ⟨_, hfault⟩ := hfault
        cases hfault
      | inr hmissing =>
        cases hmissing with
        | inl hbare => exact absurd hbare hparent
        | inr hnone =>
          rw [← hkept, hnone] at hcurrent
          cases hcurrent

def sampleFiles (files : List (String × Nat)) : Directory Nat := (files.map fun (file, contents) =>
  (⟨.text file, contents⟩ : Sigma fun _ : OsString => Nat)).toAList

def threeFiles : Directory Nat := sampleFiles [("app.log", 0), ("app.log.1", 1), ("app.log.2", 2)]

theorem rotation_effects_three : RotationEffects (some "logs") "app.log" 3 threeFiles :=
  rotation_effects (some "logs") "app.log" 3 (by decide) threeFiles

/-! ## What it does not promise -/

/-- Every file that is gone was written by a rotation. -/
def OnlyBackups (name : String) (dir dir' : Directory α) : Prop :=
  ∀ file, (dir.lookup file).isSome = true → dir'.lookup file = none → ∃ k < 2 ^ 32, file = .text (nameAt name k)

/-- Only backups are deleted, and after a failure a second run completes the rotation without losing more. -/
structure SafeRotation (parent : Option String) (name : String) (maxBackups : UInt32) (dir : Directory α) : Prop where
  success : ∀ faults dir', rotateLogFile faults ⟨parent, some name⟩ maxBackups dir = (.ok (), dir') →
    Rotated name maxBackups dir dir' ∧ OnlyBackups name dir dir'
  failure : ∀ faults e dir', rotateLogFile faults ⟨parent, some name⟩ maxBackups dir = (.error e, dir') →
    Interrupted name maxBackups dir dir' ∧ OnlyBackups name dir dir'
  again : (places name dir 0).isSome = true → ∀ faults e dir',
    rotateLogFile faults ⟨parent, some name⟩ maxBackups dir = (.error e, dir') →
      ∃ dir'', rotateLogFile (fun _ => false) ⟨parent, some name⟩ maxBackups dir' = (.ok (), dir'') ∧
        Retains maxBackups.toNat (fun k => k = maxBackups.toNat) (places name dir) (places name dir'')

def oddFile : Directory Nat := sampleFiles [("app.log", 0), ("app.log.+7", 7)]

/-- The last renaming fails. -/
def lastFails : Faults := fun op => op = .rename "app.log"

theorem not_retained {lost : Nat → Prop} {k : Nat} {c : Nat} {dir dir' : Directory Nat} (hk : k ≤ n) (hkept : ¬lost k)
    (hs : places name dir k = some c) (hgone : c ∉ HashMap.values dir') :
    ¬Retains n lost (places name dir) (places name dir') := by
  rintro ⟨place, hplace, _⟩
  have h := (hplace k hk hkept (by rw [hs]; rfl)).2
  rw [hs] at h
  exact hgone ((HashMap.mem_values_iff dir' c).mpr ⟨_, h⟩)

/-- A second run puts a moved backup over another, a name with a sign reads as a backup's, and a bare name is never
rotated. -/
theorem not_safeRotation : ¬SafeRotation (some "logs") "app.log" 3 threeFiles ∧ ¬SafeRotation (some "logs") "app.log" 5 oddFile ∧
    ¬SafeRotation (some "") "app.log" 3 threeFiles := by
  refine ⟨fun h => ?_, fun h => ?_, fun h => ?_⟩
  · have hfailed : (rotateLogFile lastFails ⟨some "logs", some "app.log"⟩ 3 threeFiles).1 = .error .other := by decide +kernel
    obtain ⟨dir'', hagain, hretains⟩ := h.again (by decide +kernel) lastFails .other
      (rotateLogFile lastFails ⟨some "logs", some "app.log"⟩ 3 threeFiles).2 (Prod.ext hfailed rfl)
    have hgone : 2 ∉ HashMap.values (rotateLogFile (fun _ => false) ⟨some "logs", some "app.log"⟩ 3
        (rotateLogFile lastFails ⟨some "logs", some "app.log"⟩ 3 threeFiles).2).2 := by decide +kernel
    rw [hagain] at hgone
    exact not_retained (k := 2) (by decide) (by decide) (by decide +kernel) hgone hretains
  · have hok : (rotateLogFile (fun _ => false) ⟨some "logs", some "app.log"⟩ 5 oddFile).1 = .ok () := by decide +kernel
    obtain ⟨_, honly⟩ := h.success (fun _ => false)
      (rotateLogFile (fun _ => false) ⟨some "logs", some "app.log"⟩ 5 oddFile).2 (Prod.ext hok rfl)
    obtain ⟨k, _, hk⟩ := honly (.text "app.log.+7") (by decide +kernel) (by decide +kernel)
    have hname := OsString.text.inj hk
    cases k with
    | zero => exact absurd hname (by decide)
    | succ k =>
      have hsuffix : "app.log" ++ "." ++ "+7" = "app.log" ++ "." ++ (k + 1).repr := hname
      have hrepr : "+7" = (k + 1).repr := (String.append_right_inj _).mp hsuffix
      have hplus : '+' ∈ (k + 1).repr.toList := by
        rw [← hrepr]
        decide
      exact absurd (Decimal.isDigit_of_mem_repr hplus) (by decide)
  · have hbare : ∀ dir : Directory Nat, rotateLogFile (fun _ => false) ⟨some "", some "app.log"⟩ 3 dir =
        (.error .notFound, dir) := fun _ => rfl
    obtain ⟨dir'', hagain, _⟩ := h.again (by decide +kernel) (fun _ => false) .notFound threeFiles (hbare threeFiles)
    rw [hbare] at hagain
    cases hagain

end Pingsix.Logging
