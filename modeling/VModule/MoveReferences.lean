/-
**Moving smart pointers: `ReferenceMover` of `sutils/RefBase.h`.**

An `sp` or a `wp` has a copy constructor and a destructor that count, but `move_references` moves it
with `memmove`.  The pointers are in the slots of `VModule/TypeHelpers.lean`, and the objects that
they point to are those of `VModule/RefBase.lean`.  `renameRefs` does nothing unless references are
debugged.

Main definitions:

* `VModule.TypeHelpers.spMembers`, `VModule.TypeHelpers.wpMembers` — the members of the pointers;
* `VModule.TypeHelpers.moveReferences` — the function;
* `VModule.TypeHelpers.HasStrong`, `VModule.TypeHelpers.CountedRefs` — objects that are referred to.

Main results:

* `VModule.move_references_agree` — **moving smart pointers** with `memmove` is moving them one by
  one;
* `VModule.copies_counted` — **copies of smart pointers** are counted, until they are destroyed.
-/

import VModule.StrongPointer
import VModule.TypeHelpers

set_option relaxedAutoImplicit false
set_option autoImplicit false

namespace VModule

open Function

/-! ### An object with its counts -/

namespace RefBase

variable {r r' : RefBase} {strong weak : ℕ}

/-- The counts and the past are all there is. -/
theorem Holds.eq (h : r.Holds strong weak) (h' : r'.Holds strong weak) (hkeeps : r.Keeps r') :
    r' = r := by
  obtain ⟨hflags, hacquired, hreferenced⟩ := hkeeps
  have hmStrong := h'.mStrong
  have hdeleted := h'.deleted
  have himpl := h'.implDeleted
  rw [hacquired, ← h.mStrong] at hmStrong
  rw [hflags, hacquired, hreferenced, ← h.deleted] at hdeleted
  rw [hreferenced, ← h.implDeleted] at himpl
  cases r
  cases r'
  simp only [RefBase.mk.injEq]
  exact ⟨hflags, hmStrong, h'.mWeak.trans h.mWeak.symm, hacquired, hreferenced, hdeleted, himpl⟩

/-- One more strong reference to an object that has one. -/
theorem incStrong_keeps (h : r.Holds (strong + 1) weak) (hfew : strong + 1 < 2 ^ 28) :
    ∃ r', r.incStrong = .ok r' ∧ r'.Holds (strong + 2) weak ∧ r.Keeps r' := by
  have halive := h.alive (Nat.lt_of_lt_of_le (Nat.succ_pos strong) le_keepers)
  obtain ⟨r', heq, h', hflags⟩ := incStrong_spec h halive hfew
  refine ⟨r', heq, h', hflags, ?_, ?_⟩
  · rw [h.acquired_of_pos, h'.acquired_of_pos]
  · rw [h.referenced_of_pos (by omega), h'.referenced_of_pos (by omega)]

/-- One more weak reference to an object that has one. -/
theorem incWeak_keeps (h : r.Holds strong (weak + 1)) :
    ∃ r', r.incWeak = .ok r' ∧ r'.Holds strong (weak + 2) ∧ r.Keeps r' := by
  obtain ⟨r', heq, h', hflags, -, hacquired⟩ := incWeak_spec h (h.implAlive (by omega))
  refine ⟨r', heq, h', hflags, hacquired, ?_⟩
  rw [h.referenced_of_pos (by omega), h'.referenced_of_pos (by omega)]

end RefBase

namespace TypeHelpers

open Pointers

variable {Oid : Type} [DecidableEq Oid]

/-! ### The members of `sp` and `wp` -/

/-- The objects that are pointed to, until an access fails. -/
abbrev World (Oid : Type) := Except Fault (Oid → RefBase)

/-- A function is called on the object pointed to, unless the pointer is null. -/
def onObject (p : Option Oid) (f : RefBase → Except Fault RefBase) (w : World Oid) :
    Except Fault (Oid → RefBase) := do
  let objects ← w
  match p with
  | none => return objects
  | some o => do
      let r ← f (objects o)
      return update objects o r

/-- A function is called on `m_refs`, unless `m_ptr` is null. -/
def onRefs (v : WeakPointer Oid) (f : RefBase → Except Fault RefBase) (w : World Oid) :
    Except Fault (Oid → RefBase) :=
  match v.mPtr, v.mRefs with
  | none, _ => w
  | some _, none => w >>= fun _ => .error .null
  | some _, some o => onObject (some o) f w

/-- Neither `sp` nor `wp` has traits of its own. -/
def spMembers : Members (Option Oid) (World Oid) where
  hasTrivialDtor := false
  hasTrivialCopy := false
  hasTrivialMove := false
  copy p := onObject p RefBase.incStrong
  destroy p := onObject p RefBase.decStrong

def wpMembers : Members (WeakPointer Oid) (World Oid) where
  hasTrivialDtor := false
  hasTrivialCopy := false
  hasTrivialMove := false
  copy v := onRefs v RefBase.incWeak
  destroy v := onRefs v RefBase.decWeak

/-- `ReferenceMover::move_references`. -/
def moveReferences {α σ : Type} (d s n : ℕ) (st : State α σ) : State α σ :=
  ⟨moved false d s n st.slot, st.world⟩

variable {objects : Oid → RefBase} {strong weak : Oid → ℕ} {o : Oid} {r : RefBase}

theorem onObject_ok {f : RefBase → Except Fault RefBase} (h : f (objects o) = .ok r) :
    onObject (some o) f (.ok objects) = .ok (update objects o r) := by
  rw [onObject, RefBase.ok_bind]
  simp only [h, RefBase.ok_bind]
  rfl

/-- A reference is made and let go again. -/
theorem onObject_twice {f g : RefBase → Except Fault RefBase} (hf : f (objects o) = .ok r)
    (hg : g r = .ok (objects o)) :
    onObject (some o) g (onObject (some o) f (.ok objects)) = .ok objects := by
  have hg' : g (update objects o r o) = .ok (objects o) := by rw [update_self, hg]
  rw [onObject_ok hf, onObject_ok hg', update_idem, update_eq_self]

/-! ### Moving -/

/-- An object with a strong reference, and few others. -/
def HasStrong (r : RefBase) : Prop :=
  ∃ strong weak, r.Holds (strong + 1) weak ∧ strong + 1 < 2 ^ 28 ∧ strong + 1 + weak < 2 ^ 31

/-- An object with a weak reference, and few others. -/
def HasWeak (r : RefBase) : Prop :=
  ∃ strong weak, r.Holds strong (weak + 1) ∧ strong + (weak + 1) < 2 ^ 31

theorem incStrong_decStrong (h : HasStrong r) :
    ∃ r', r.incStrong = .ok r' ∧ r'.decStrong = .ok r := by
  obtain ⟨strong, weak, hheld, hfew, hall⟩ := h
  obtain ⟨r', hinc, h', hkeeps⟩ := RefBase.incStrong_keeps hheld hfew
  obtain ⟨r'', hdec, h'', hkeeps'⟩ := RefBase.decStrong_spec h' hall hfew
  rw [hheld.eq h'' (hkeeps.trans hkeeps')] at hdec
  exact ⟨r', hinc, hdec⟩

theorem incWeak_decWeak (h : HasWeak r) : ∃ r', r.incWeak = .ok r' ∧ r'.decWeak = .ok r := by
  obtain ⟨strong, weak, hheld, hall⟩ := h
  obtain ⟨r', hinc, h', hkeeps⟩ := RefBase.incWeak_keeps hheld
  obtain ⟨r'', hdec, h'', hkeeps'⟩ := RefBase.decWeak_spec h' hall
  rw [hheld.eq h'' (hkeeps.trans hkeeps')] at hdec
  exact ⟨r', hinc, hdec⟩

/-- An `sp` is copied and destroyed. -/
theorem passOn_sp {p : Option Oid} (h : ∀ o, p = some o → HasStrong (objects o)) :
    passOn spMembers p (.ok objects) = .ok objects := by
  cases p with
  | none => rfl
  | some o =>
      obtain ⟨r, hinc, hdec⟩ := incStrong_decStrong (h o rfl)
      exact onObject_twice hinc hdec

/-- A `wp` with its reference. -/
def CountedRefs (objects : Oid → RefBase) (v : WeakPointer Oid) : Prop :=
  v.mPtr ≠ none → ∃ o, v.mRefs = some o ∧ HasWeak (objects o)

/-- A `wp` is copied and destroyed. -/
theorem passOn_wp {v : WeakPointer Oid} (h : CountedRefs objects v) :
    passOn wpMembers v (.ok objects) = .ok objects := by
  obtain ⟨mPtr, mRefs⟩ := v
  cases mPtr with
  | none => rfl
  | some p =>
      obtain ⟨o, hrefs, hweak⟩ := h (by simp)
      obtain rfl : mRefs = some o := hrefs
      obtain ⟨r, hinc, hdec⟩ := incWeak_decWeak hweak
      exact onObject_twice hinc hdec

/-- Objects of which nothing is seen while they are moved. -/
theorem move_unseen {α σ : Type} {m : Members α σ} {d s : ℕ} {xs : List α} {st : State α σ}
    (hbytes : movesBytes m = false) (hdtor : m.hasTrivialDtor = false)
    (h : Ready m d s xs st.slot) (hunseen : ∀ x ∈ xs, passOn m x st.world = st.world) :
    (xs = [] ∨ s < d ∨ d + xs.length ≤ s →
        moveForwardType m d s xs.length st = some (moveReferences d s xs.length st)) ∧
      (xs = [] ∨ d < s ∨ s + xs.length ≤ d →
        moveBackwardType m d s xs.length st = some (moveReferences d s xs.length st)) := by
  have hfoldr : xs.foldr (passOn m) st.world = st.world := by
    clear h
    induction xs with
    | nil => rfl
    | cons x xs ih =>
        rw [List.foldr_cons, ih fun y hy => hunseen y (List.mem_cons_of_mem x hy)]
        exact hunseen x List.mem_cons_self
  have hfoldl : xs.foldl (fun w x => passOn m x w) st.world = st.world := by
    clear h hfoldr
    induction xs with
    | nil => rfl
    | cons x xs ih =>
        rw [List.foldl_cons, hunseen x List.mem_cons_self]
        exact ih fun y hy => hunseen y (List.mem_cons_of_mem x hy)
  constructor
  · intro hdir
    rw [moveForwardType, hbytes, if_neg (by simp), forwardLoop_eq hdir h, hfoldr, hdtor]
    rfl
  · intro hdir
    rw [moveBackwardType, hbytes, if_neg (by simp), backwardLoop_eq hdir h, hfoldl, hdtor]
    rfl

/-! ### Copying and destroying -/

variable {ps : List (Option Oid)}

/-- The counts of the objects, none of which has another past than before. -/
def Counts (objects objects' : Oid → RefBase) (strong weak : Oid → ℕ) : Prop :=
  ∀ o, (objects o).Keeps (objects' o) ∧ (objects' o).Holds (strong o) (weak o)

omit [DecidableEq Oid] in
theorem Counts.refl (h : ∀ o, (objects o).Holds (strong o) (weak o)) :
    Counts objects objects strong weak :=
  fun o => ⟨⟨rfl, rfl, rfl⟩, h o⟩

/-- One object gets another count. -/
theorem Counts.update {objects' : Oid → RefBase} {c : ℕ}
    (h : Counts objects objects' strong weak) (hkeeps : (objects' o).Keeps r)
    (hr : r.Holds c (weak o)) :
    Counts objects (Function.update objects' o r) (Function.update strong o c) weak := by
  intro o'
  rcases eq_or_ne o' o with rfl | hne
  · rw [update_self, update_self]
    exact ⟨(h o').1.trans hkeeps, hr⟩
  · rw [update_of_ne hne, update_of_ne hne]
    exact h o'

/-- The counts with one more reference from each of the pointers. -/
def withCopies (strong : Oid → ℕ) (ps : List (Option Oid)) (o : Oid) : ℕ :=
  strong o + ps.count (some o)

theorem withCopies_none : withCopies strong (none :: ps) = withCopies strong ps := by
  funext o
  rw [withCopies, List.count_cons_of_ne (by simp), withCopies]

theorem withCopies_some :
    withCopies strong (some o :: ps) = withCopies (update strong o (strong o + 1)) ps := by
  funext o'
  rcases eq_or_ne o' o with rfl | hne
  · rw [withCopies, withCopies, List.count_cons_self, update_self]
    omega
  · rw [withCopies, withCopies, List.count_cons_of_ne (by simp [hne.symm]), update_of_ne hne]

/-- What the counts must not exceed. -/
def FewReferences (strong weak : Oid → ℕ) : Prop :=
  ∀ o, strong o ≤ 2 ^ 28 ∧ strong o + weak o ≤ 2 ^ 31

/-- The pointers are copied. -/
theorem copies_run {objects' : Oid → RefBase} (h : Counts objects objects' strong weak)
    (hpos : ∀ o, some o ∈ ps → 0 < strong o) (hfew : FewReferences (withCopies strong ps) weak) :
    ∃ objects'', ps.foldl (fun w p => spMembers.copy p w) (.ok objects') = .ok objects'' ∧
      Counts objects objects'' (withCopies strong ps) weak := by
  induction ps generalizing strong objects' with
  | nil => exact ⟨objects', rfl, h⟩
  | cons p ps ih =>
      rw [List.foldl_cons]
      cases p with
      | none =>
          rw [withCopies_none] at hfew ⊢
          exact ih h (fun o ho => hpos o (List.mem_cons_of_mem _ ho)) hfew
      | some o =>
          obtain ⟨k, hk⟩ := Nat.exists_eq_add_of_lt (hpos o List.mem_cons_self)
          rw [Nat.zero_add] at hk
          have hheld := (h o).2
          rw [hk] at hheld
          have htotal := (hfew o).1
          rw [withCopies, List.count_cons_self, hk] at htotal
          obtain ⟨r, hinc, hr, hkeeps⟩ := RefBase.incStrong_keeps hheld (by omega)
          rw [withCopies_some] at hfew ⊢
          have hcopy : spMembers.copy (some o) (.ok objects' : World Oid) =
              .ok (update objects' o r) := onObject_ok hinc
          rw [hcopy]
          refine ih (h.update hkeeps (hk ▸ hr)) (fun o' ho' => ?_) hfew
          rw [update_apply]
          split
          · omega
          · exact hpos o' (List.mem_cons_of_mem _ ho')

/-- The pointers are destroyed. -/
theorem destroys_run {objects' : Oid → RefBase}
    (h : Counts objects objects' (withCopies strong ps) weak)
    (hfew : FewReferences (withCopies strong ps) weak) :
    ∃ objects'', ps.foldl (fun w p => spMembers.destroy p w) (.ok objects') = .ok objects'' ∧
      Counts objects objects'' strong weak := by
  induction ps generalizing objects' with
  | nil => exact ⟨objects', rfl, h⟩
  | cons p ps ih =>
      rw [List.foldl_cons]
      cases p with
      | none =>
          rw [withCopies_none] at h hfew
          exact ih h hfew
      | some o =>
          have hheld := (h o).2
          obtain ⟨hstrong, hall⟩ := hfew o
          have hone : withCopies strong (some o :: ps) o = withCopies strong ps o + 1 := by
            rw [withCopies, withCopies, List.count_cons_self]
            omega
          rw [hone] at hheld hstrong hall
          obtain ⟨r, hdec, hr, hkeeps⟩ :=
            RefBase.decStrong_spec hheld (by omega) (by omega)
          have hdestroy : spMembers.destroy (some o) (.ok objects' : World Oid) =
              .ok (update objects' o r) := onObject_ok hdec
          rw [hdestroy]
          have hrest : update (withCopies strong (some o :: ps)) o (withCopies strong ps o) =
              withCopies strong ps := by
            funext o'
            rcases eq_or_ne o' o with rfl | hne
            · rw [update_self]
            · rw [update_of_ne hne, withCopies, withCopies,
                List.count_cons_of_ne (by simp [hne.symm])]
          have hnext := h.update hkeeps hr
          rw [hrest] at hnext
          refine ih hnext fun o' => ?_
          have hle : withCopies strong ps o' ≤ withCopies strong (some o :: ps) o' :=
            Nat.add_le_add_left (List.count_le_count_cons) _
          have hfew' := hfew o'
          omega

end TypeHelpers

open TypeHelpers
open Pointers (WeakPointer)

variable {Oid : Type} [DecidableEq Oid] {d s : ℕ} {objects : Oid → RefBase}

/-- **Moving smart pointers.**  To move pointers with `memmove` is to move them one by one, in the
direction in which that can be done: each object, to which there is a reference, has the same counts
in between and afterwards, and is not destroyed. -/
theorem move_references_agree :
    (∀ (ps : List (Option Oid)) (slot : ℕ → Option (Option Oid)),
      Ready spMembers d s ps slot → (∀ o, some o ∈ ps → HasStrong (objects o)) →
      let st : TypeHelpers.State (Option Oid) (World Oid) := ⟨slot, .ok objects⟩
      (ps = [] ∨ s < d ∨ d + ps.length ≤ s →
          moveForwardType spMembers d s ps.length st = some (moveReferences d s ps.length st)) ∧
        (ps = [] ∨ d < s ∨ s + ps.length ≤ d →
          moveBackwardType spMembers d s ps.length st = some (moveReferences d s ps.length st))) ∧
      ∀ (vs : List (WeakPointer Oid)) (slot : ℕ → Option (WeakPointer Oid)),
        Ready wpMembers d s vs slot → (∀ v ∈ vs, CountedRefs objects v) →
        let st : TypeHelpers.State (WeakPointer Oid) (World Oid) := ⟨slot, .ok objects⟩
        (vs = [] ∨ s < d ∨ d + vs.length ≤ s →
            moveForwardType wpMembers d s vs.length st = some (moveReferences d s vs.length st)) ∧
          (vs = [] ∨ d < s ∨ s + vs.length ≤ d →
            moveBackwardType wpMembers d s vs.length st =
              some (moveReferences d s vs.length st)) := by
  constructor
  · intro ps slot hready hcounted st
    refine move_unseen rfl rfl hready fun p hp => passOn_sp fun o ho => ?_
    exact hcounted o (ho ▸ hp)
  · intro vs slot hready hcounted st
    exact move_unseen rfl rfl hready fun v hv => passOn_wp (hcounted v hv)

/-- A row and nothing else is ready to be moved. -/
theorem TypeHelpers.ready_filled {α σ : Type} (m : Members α σ) (d s : ℕ) (xs : List α) :
    Ready m d s xs (filled s xs fun _ => none) := by
  constructor
  · intro k x hk
    obtain ⟨hlt, -⟩ := List.getElem?_eq_some_iff.1 hk
    rw [filled, if_pos (by omega), Nat.add_sub_cancel_left, hk]
  · intro j _ _ hout
    exact .inl (if_neg hout)

/-- An object with two strong and two weak references. -/
def heldTwice : RefBase := ⟨.strong, 2, 4, true, true, 0, 0⟩

theorem heldTwice_holds : heldTwice.Holds 2 2 :=
  ⟨rfl, rfl, by decide, by decide, rfl, rfl⟩

/-- Three pointers to one object, the second of them null, move over a part of themselves: as `sp`
up and as `wp` down. -/
theorem move_references_agree_up :
    (let st : TypeHelpers.State (Option Unit) (World Unit) :=
      ⟨filled 0 [some (), none, some ()] fun _ => none, .ok fun _ => heldTwice⟩
    moveForwardType spMembers 1 0 3 st = some (moveReferences 1 0 3 st)) ∧
    let st : TypeHelpers.State (WeakPointer Unit) (World Unit) :=
      ⟨filled 1 [⟨some (), some ()⟩, ⟨none, none⟩, ⟨some (), some ()⟩] fun _ => none,
        .ok fun _ => heldTwice⟩
    moveBackwardType wpMembers 0 1 3 st = some (moveReferences 0 1 3 st) := by
  constructor
  · intro st
    have hready := ready_filled spMembers 1 0 [some (), none, some ()]
    refine (move_references_agree.1 _ st.slot hready ?_).1 (.inr (.inl Nat.zero_lt_one))
    exact fun _ _ => ⟨1, 2, heldTwice_holds, by omega, by omega⟩
  · intro st
    have hready := ready_filled (@wpMembers Unit _) 0 1
      [⟨some (), some ()⟩, ⟨none, none⟩, ⟨some (), some ()⟩]
    refine (move_references_agree.2 _ st.slot hready ?_).2 (.inr (.inl Nat.zero_lt_one))
    intro v hv hptr
    obtain rfl | rfl | rfl : v = _ ∨ v = _ ∨ v = _ := by simpa using hv
    · exact ⟨(), rfl, 2, 1, heldTwice_holds, by omega⟩
    · exact absurd rfl hptr
    · exact ⟨(), rfl, 2, 1, heldTwice_holds, by omega⟩

/-- **Copies of smart pointers.**  While there are copies of a row of pointers, each object has as
many strong references more as there are pointers to it in the row; when the copies have been
destroyed, everything is as before. -/
theorem copies_counted {ps : List (Option Oid)} {slot : ℕ → Option (Option Oid)}
    {strong weak : Oid → ℕ} (hrow : Row s ps slot) (hroom : Room d ps.length slot)
    (hheld : ∀ o, (objects o).Holds (strong o) (weak o)) (hpos : ∀ o, some o ∈ ps → 0 < strong o)
    (hfew : FewReferences (withCopies strong ps) weak) :
    ∃ objects' : Oid → RefBase,
      copyType spMembers d s ps.length ⟨slot, .ok objects⟩ =
          some ⟨filled d ps slot, .ok objects'⟩ ∧
        (∀ o, (objects' o).Holds (strong o + ps.count (some o)) (weak o)) ∧
        destroyType spMembers d ps.length ⟨filled d ps slot, .ok objects'⟩ =
          some ⟨slot, .ok objects⟩ := by
  obtain ⟨objects', hcopies, hcounts⟩ := copies_run (Counts.refl hheld) hpos hfew
  obtain ⟨objects'', hdestroys, hcounts'⟩ := destroys_run hcounts hfew
  have hback : objects'' = objects := by
    funext o
    exact (hheld o).eq (hcounts' o).2 (hcounts' o).1
  refine ⟨objects', ?_, fun o => (hcounts o).2, ?_⟩
  · have heq : constructRow spMembers d ps ⟨slot, .ok objects⟩ = _ := constructRow_eq hroom
    rw [hcopies] at heq
    exact (copyLoop_eq rfl hrow hroom).trans heq
  · have heq := destroyLoop_filled (m := spMembers) hroom (.ok objects')
    rw [hdestroys, hback] at heq
    exact heq

/-- Of three pointers to one object, the second is null; the copies of the others count. -/
theorem copies_counted_twice :
    let ps := [some (), none, some ()]
    let st : TypeHelpers.State (Option Unit) (World Unit) :=
      ⟨filled 0 ps fun _ => none, .ok fun _ => heldTwice⟩
    ∃ objects' : Unit → RefBase, (objects' ()).Holds 4 2 ∧
      copyType spMembers 3 0 3 st = some ⟨filled 3 ps st.slot, .ok objects'⟩ ∧
      destroyType spMembers 3 3 ⟨filled 3 ps st.slot, .ok objects'⟩ = some st := by
  intro ps st
  have hrow := (ready_filled (@spMembers Unit _) 3 0 ps).row
  have hroom : Room 3 3 st.slot := by
    intro j hj _
    exact if_neg fun hin => Nat.not_lt.2 hj hin.2
  have hfew : FewReferences (withCopies (fun _ : Unit => 2) ps) fun _ => 2 := by
    intro o
    cases o
    exact ⟨by decide, by decide⟩
  obtain ⟨objects', hcopy, hheld, hdestroy⟩ :=
    copies_counted hrow hroom (fun _ => heldTwice_holds) (fun _ _ => Nat.two_pos) hfew
  exact ⟨objects', hheld (), hcopy, hdestroy⟩

end VModule
