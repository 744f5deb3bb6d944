/-
**When an object and its `weakref_impl` are deleted.**

Over the machine of `VModule/RefCounts.lean`, for an object that is shared already: it has some
reference to begin with, and `incStrong` only copies strong references.  Then the call of
`incStrong` never finds the bare `INITIAL_STRONG_VALUE`, and the value is taken off once at most.

What keeps the object alive depends on that: while the value is there any reference does, and
`decWeak` is to delete the object; afterwards strong references do, and `decStrong` is to.  The
`weakref_impl` is kept by the references of either kind, and by the calls that have counted
themselves in `mWeak`.

Main definitions:

* `VModule.RefCounts.Guarded` — the callers hold what they rely on;
* `VModule.RefCounts.keepers`, `VModule.RefCounts.Duties` — what keeps the object, and who is to
  delete what.

Main results:

* `VModule.RefCounts.guarded_step`, `VModule.RefCounts.duties_step` — what one step keeps;
* `VModule.RefCounts.life_run` — what a run keeps;
* `VModule.deleted_safely` — **nothing is deleted twice, or while it is in use**.
-/

import VModule.RefCountsStrong

set_option relaxedAutoImplicit false
set_option autoImplicit false

namespace VModule

namespace RefCounts

open Function

variable {Tid : Type}

/-! ### What the callers hold -/

namespace Pc

/-- Makes the first strong reference, or has found `INITIAL_STRONG_VALUE`. -/
def isFirst : Pc → Bool
  | incStrongWeak first | incStrong first => first
  | incStrongAdd => true
  | _ => false

theorem needsStrong_of_needsRef {p : Pc} (h : p.needsRef = false) : p.needsStrong = false := by
  cases p <;> simp_all [needsRef, needsStrong]

/-- A call that has counted itself needs nothing, and a call has counted itself or needs something,
unless it has just found that `mWeak` is gone. -/
theorem weakRefs_or {p : Pc} (h : p.isFirst = false) :
    p = outside ∨ p = lastWeak ∨ p = lastDestructor ∨ 0 < p.weakRefs ∨ p.needsRef = true := by
  cases p <;> simp_all [isFirst, weakRefs, needsRef]

end Pc

/-- The callers hold what they rely on, and none of them makes the first strong reference. -/
structure Guarded (created : Bool) (strong weak : ℕ) (pc : Tid → Pc) : Prop where
  covers : Covers strong weak pc
  created : created = true
  shared : ∀ t, (pc t).isFirst = false

namespace Guarded

variable {created : Bool} {strong strong' weak weak' : ℕ} {pc : Tid → Pc} {t : Tid} {p q : Pc}

theorem strong_pos (h : Guarded created strong weak pc) (ht : pc t = p)
    (hp : p.needsStrong = true) : 0 < strong :=
  (h.covers t).1 (ht ▸ hp)

theorem pos (h : Guarded created strong weak pc) (ht : pc t = p) (hp : p.needsRef = true) :
    0 < strong + weak :=
  (h.covers t).2 (ht ▸ hp)

/-- Nobody will subtract, so every step is sane. -/
theorem sane {s : State Tid} {a : Action Tid} (h : Guarded s.created s.strong s.weak s.pc) :
    Sane s a := by
  intro t c hc _ _ _ u hu
  have hshared := h.shared u
  rw [hu] at hshared
  exact absurd hshared (by simp [Pc.isFirst])

variable [DecidableEq Tid]

/-- A thread goes on, with what it needs. -/
theorem move (h : Guarded created strong weak pc) (hfirst : q.isFirst = false)
    (hs : q.needsStrong = true → 0 < strong') (hr : q.needsRef = true → 0 < strong' + weak')
    (hle : strong ≤ strong') (hle' : weak ≤ weak') :
    Guarded created strong' weak' (update pc t q) := by
  refine ⟨?_, h.created, ?_⟩
  · refine (forall_update_iff pc fun _ r => (r.needsStrong = true → 0 < strong') ∧
      (r.needsRef = true → 0 < strong' + weak')).2 ⟨⟨hs, hr⟩, fun u _ => ⟨?_, ?_⟩⟩
    · intro hn
      have hpos := (h.covers u).1 hn
      omega
    · intro hn
      have hpos := (h.covers u).2 hn
      omega
  · exact (forall_update_iff pc fun _ r => r.isFirst = false).2 ⟨hfirst, fun u _ => h.shared u⟩

/-- A thread goes on, and needs nothing. -/
theorem free (h : Guarded created strong weak pc) (hfirst : q.isFirst = false)
    (hq : q.needsRef = false) (hle : strong ≤ strong') (hle' : weak ≤ weak') :
    Guarded created strong' weak' (update pc t q) := by
  refine h.move hfirst (fun hn => ?_) (fun hn => ?_) hle hle'
  · rw [Pc.needsStrong_of_needsRef hq] at hn
    exact absurd hn (by simp)
  · rw [hq] at hn
    exact absurd hn (by simp)

/-- A thread goes on, and needs what it needed. -/
theorem still (h : Guarded created strong weak pc) (ht : pc t = p) (hfirst : q.isFirst = p.isFirst)
    (hs : q.needsStrong = p.needsStrong) (hr : q.needsRef = p.needsRef) :
    Guarded created strong weak (update pc t q) :=
  h.move (by rw [hfirst, ← ht, h.shared]) (fun hn => h.strong_pos ht (hs ▸ hn))
    (fun hn => h.pos ht (hr ▸ hn)) le_rfl le_rfl

omit [DecidableEq Tid] in
/-- A reference is released, on which nobody relies. -/
theorem release (h : Guarded created strong weak pc) (hcovers : Covers strong' weak' pc) :
    Guarded created strong' weak' pc :=
  ⟨hcovers, h.created, h.shared⟩

end Guarded

section

variable {s s' : State Tid} {a : Action Tid} {ph : Phase} [DecidableEq Tid]

theorem guarded_step (h : Step s a s') (hfew : strongReferences s.strong s.pc < 2 ^ 28)
    (hc : Counted ph s.mStrong s.strong s.acquired s.pc)
    (hg : Guarded s.created s.strong s.weak s.pc) :
    Guarded s'.created s'.strong s'.weak s'.pc := by
  have shared {t : Tid} {p : Pc} (ht : s.pc t = p) : p.isFirst = false := ht ▸ hg.shared t
  cases h with
  | callFirst _ hnew _ => exact absurd (hg.created.symm.trans hnew) (by simp)
  | callIncStrong _ hpos =>
      exact hg.move rfl (fun _ => hpos) (fun _ => Nat.add_pos_left hpos _) le_rfl le_rfl
  | callDecStrong _ _ hcovers => exact (hg.release hcovers).free rfl rfl le_rfl le_rfl
  | callIncWeak _ hpos => exact hg.move rfl (by simp [Pc.needsStrong]) (fun _ => hpos) le_rfl le_rfl
  | callDecWeak _ _ hcovers => exact (hg.release hcovers).free rfl rfl le_rfl le_rfl
  | callAttemptWeak _ hpos =>
      exact hg.move rfl (by simp [Pc.needsStrong]) (fun _ => hpos) le_rfl le_rfl
  | callAttemptStrong _ hpos =>
      exact hg.move rfl (by simp [Pc.needsStrong]) (fun _ => hpos) le_rfl le_rfl
  | incStrongWeak ht => exact hg.still ht rfl rfl rfl
  | incStrongFirst ht heq =>
      -- the strong reference that is copied is counted
      obtain rfl := shared ht
      have hpos := hg.strong_pos ht rfl
      have hzero := (hc.of_initial hfew heq).2
      have hrefs : 0 < strongReferences s.strong s.pc := Counted.pos_of_strong hpos
      omega
  | incStrong _ _ => exact hg.free rfl rfl (Nat.le_succ _) le_rfl
  | incStrongAdd _ => exact hg.free rfl rfl (Nat.le_succ _) le_rfl
  | incWeak _ => exact hg.free rfl rfl le_rfl (Nat.le_succ _)
  | attemptWeakRead ht _ => exact hg.still ht rfl rfl rfl
  | attemptWeakSwap _ _ => exact hg.free rfl rfl le_rfl (Nat.le_succ _)
  | attemptWeakAgain ht _ => exact hg.still ht rfl rfl rfl
  | fixNone _ _ => exact hg.free rfl rfl (Nat.le_succ _) le_rfl
  | fixSwap _ _ => exact hg.free rfl rfl (Nat.le_succ _) le_rfl
  | _ => exact hg.free rfl rfl le_rfl le_rfl

end

/-! ### Who is to delete what -/

/-- `INITIAL_STRONG_VALUE` is there. -/
def Phase.isFresh : Phase → Bool
  | fresh => true
  | _ => false

theorem Phase.isFresh_of_ne {ph : Phase} (h : ph ≠ .fresh) : ph.isFresh = false := by
  cases ph with
  | fresh => exact absurd rfl h
  | _ => rfl

/-- The number that keeps the object alive. -/
def keepers : Phase → Int → Int → Int
  | .fresh, _, mWeak => mWeak
  | _, mStrong, _ => mStrong

namespace Pc

/-- Will delete the object. -/
def deletes (ph : Phase) : Pc → ℕ
  | lastStrong => (!ph.isFresh).toNat
  | lastWeak => ph.isFresh.toNat
  | _ => 0

/-- Will delete the `weakref_impl`. -/
def deletesImpl : Pc → ℕ
  | lastWeak | lastDestructor => 1
  | _ => 0

/-- Cannot be there: the other function deletes the object. -/
def stray (ph : Phase) : Pc → Bool
  | lastStrong | destructor => ph.isFresh
  | lastDestructor => !ph.isFresh
  | _ => false

/-- May acquire a strong reference. -/
def acquires : Pc → Bool
  | incStrong _ | incStrongAdd | fixRead | fixSwap _ _ => true
  | _ => false

theorem deletes_of_ne {ph : Phase} {p : Pc} (hstrong : p ≠ lastStrong) (hweak : p ≠ lastWeak) :
    p.deletes ph = 0 := by
  cases p with
  | lastStrong => exact absurd rfl hstrong
  | lastWeak => exact absurd rfl hweak
  | _ => rfl

theorem deletesImpl_of_ne {p : Pc} (hweak : p ≠ lastWeak) (hdestructor : p ≠ lastDestructor) :
    p.deletesImpl = 0 := by
  cases p with
  | lastWeak => exact absurd rfl hweak
  | lastDestructor => exact absurd rfl hdestructor
  | _ => rfl

/-- When the value has been taken off, only the destructor after the last `decWeak` cannot be
there. -/
theorem stray_of_ne {ph : Phase} {p : Pc} (hph : ph ≠ .fresh) (hdestructor : p ≠ lastDestructor) :
    p.stray ph = false := by
  cases p with
  | lastStrong => exact Phase.isFresh_of_ne hph
  | destructor => exact Phase.isFresh_of_ne hph
  | lastDestructor => exact absurd rfl hdestructor
  | _ => rfl

end Pc

/-- The object and its `weakref_impl` are deleted by one thread each, when nothing keeps them. -/
structure Duties (ph : Phase) (mStrong mWeak : Int) (deleted implDeleted : ℕ) (pc : Tid → Pc) :
    Prop where
  object : Due (Pc.deletes ph) pc deleted (keepers ph mStrong mWeak).toNat
  impl : Due Pc.deletesImpl pc implDeleted mWeak.toNat
  stray : ∀ t, (pc t).stray ph = false

section

variable {s s' : State Tid} {a : Action Tid} {ph ph' : Phase} {mStrong mStrong' mWeak mWeak' : Int}
  {strong weak deleted implDeleted : ℕ} {acquired : Bool} {pc : Tid → Pc} {t : Tid} {p q : Pc}

theorem WeakCounted.strong_le (h : WeakCounted mWeak strong weak pc) :
    (strongReferences strong pc : Int) ≤ mWeak := by
  have hle := tally_mono h.few (w := Pc.weakRefs) rfl Pc.strongRefs_le
  have hcount := h.count
  unfold strongReferences
  omega

theorem WeakCounted.pos_of_refs (h : WeakCounted mWeak strong weak pc) (ht : pc t = p)
    (hp : p.weakRefs = 1) : 0 < mWeak := by
  have hle := le_tally h.few (w := Pc.weakRefs) rfl t
  have hcount := h.count
  rw [ht, hp] at hle
  omega

/-- The value is there, or it has been taken off once. -/
theorem Counted.of_sound (h : Counted ph mStrong strong acquired pc) (hsound : ph.isSound = true) :
    ph = .fresh ∧ mStrong = strongReferences strong pc + 2 ^ 28 ∨
      ph = .clean ∧ mStrong = strongReferences strong pc := by
  have hcount := h.count
  cases ph with
  | fresh => exact .inl ⟨rfl, hcount⟩
  | clean => exact .inr ⟨rfl, by simpa [Phase.bias] using hcount⟩
  | half => exact absurd hsound (by simp [Phase.isSound])
  | broken => exact absurd hsound (by simp [Phase.isSound])

/-- Strong references keep the object alive, whoever is to delete it. -/
theorem keepers_pos (hc : Counted ph mStrong strong acquired pc)
    (hw : WeakCounted mWeak strong weak pc) (hsound : ph.isSound = true)
    (hpos : 0 < strongReferences strong pc) : 0 < keepers ph mStrong mWeak := by
  have hle := hw.strong_le
  rcases hc.of_sound hsound with ⟨rfl, hcount⟩ | ⟨rfl, hcount⟩
  · simp only [keepers]
    omega
  · simp only [keepers]
    omega

/-- A thread that may acquire a strong reference has one, or copies one. -/
theorem refs_pos (hc : Counted ph mStrong strong acquired pc) {created : Bool}
    (hg : Guarded created strong weak pc) (ht : (pc t).acquires = true) :
    0 < strongReferences strong pc := by
  have hshared := hg.shared t
  cases hp : pc t with
  | incStrong first =>
      rw [hp] at hshared
      obtain rfl : first = false := hshared
      exact Counted.pos_of_strong (hg.strong_pos hp rfl)
  | incStrongAdd => exact hc.pos_of_refs hp rfl
  | fixRead => exact hc.pos_of_refs hp rfl
  | fixSwap c h => exact hc.pos_of_refs hp rfl
  | _ =>
      rw [hp] at ht
      exact absurd ht (by simp [Pc.acquires])

variable [DecidableEq Tid]

/-- How a strong reference is acquired. -/
theorem acquires_step (h : Step s a s') (hlt : s.strong < s'.strong) :
    ∃ t, (s.pc t).acquires = true ∧ s'.pc = update s.pc t .outside ∧ s'.deleted = s.deleted ∧
      s'.implDeleted = s.implDeleted := by
  cases h with
  | @incStrong t _ ht _ => exact ⟨t, by rw [ht]; rfl, rfl, rfl, rfl⟩
  | @incStrongAdd t ht => exact ⟨t, by rw [ht]; rfl, rfl, rfl, rfl⟩
  | @fixNone t ht _ => exact ⟨t, by rw [ht]; rfl, rfl, rfl, rfl⟩
  | @fixSwap t _ _ ht _ => exact ⟨t, by rw [ht]; rfl, rfl, rfl, rfl⟩
  | callDecStrong _ _ _ => exact absurd hlt (Nat.not_lt.2 (Nat.sub_le _ _))
  | _ => exact absurd hlt (lt_irrefl _)

theorem stray_update (h : ∀ t, (pc t).stray ph = false) (hq : q.stray ph = false) (u : Tid) :
    (update pc t q u).stray ph = false :=
  (forall_update_iff pc fun _ r => r.stray ph = false).2 ⟨hq, fun v _ => h v⟩ u

namespace Duties

/-- A thread goes on with the duties it has, and nothing is let go of for good. -/
theorem walk (h : Duties ph mStrong mWeak deleted implDeleted pc) (hf : AlmostIdle .outside pc)
    (ht : pc t = p) (hobject : q.deletes ph = p.deletes ph) (himpl : q.deletesImpl = p.deletesImpl)
    (hstray : q.stray ph = false) (hs : ph ≠ .fresh → (mStrong' ≤ 0 ↔ mStrong ≤ 0))
    (hw : mWeak' ≤ 0 ↔ mWeak ≤ 0) :
    Duties ph mStrong' mWeak' deleted implDeleted (update pc t q) := by
  subst ht
  refine ⟨h.object.keep hf rfl hobject ?_, h.impl.keep hf rfl himpl ?_, stray_update h.stray hstray⟩
  · simp only [Int.toNat_eq_zero]
    cases ph with
    | fresh => exact hw
    | _ => exact hs (by simp)
  · simp only [Int.toNat_eq_zero, hw]

/-- A thread goes on with the duties it has, and no counter changes. -/
theorem stay (h : Duties ph mStrong mWeak deleted implDeleted pc) (hf : AlmostIdle .outside pc)
    (ht : pc t = p) (hobject : q.deletes ph = p.deletes ph) (himpl : q.deletesImpl = p.deletesImpl)
    (hstray : q.stray ph = false) :
    Duties ph mStrong mWeak deleted implDeleted (update pc t q) :=
  h.walk hf ht hobject himpl hstray (fun _ => .rfl) .rfl

omit [DecidableEq Tid] in
/-- As long as something keeps the object, nothing is deleted and nobody is about to. -/
theorem early (h : Duties ph mStrong mWeak deleted implDeleted pc) (hf : AlmostIdle .outside pc)
    (hkeep : 0 < keepers ph mStrong mWeak) (hw : 0 < mWeak) :
    deleted = 0 ∧ implDeleted = 0 ∧
      ∀ u, pc u ≠ .lastStrong ∧ pc u ≠ .lastWeak ∧ pc u ≠ .lastDestructor := by
  obtain ⟨hdeleted, hobject⟩ := h.object.early (by omega)
  obtain ⟨himplDeleted, himpl⟩ := h.impl.early (by omega)
  refine ⟨hdeleted, himplDeleted, fun u => ⟨fun hu => ?_, fun hu => ?_, fun hu => ?_⟩⟩
  · have hstray := h.stray u
    have hnot := (tally_eq_zero_iff hf rfl).1 hobject u
    rw [hu] at hstray hnot
    simp only [Pc.stray, Pc.deletes] at hstray hnot
    rw [hstray] at hnot
    exact absurd hnot (by simp)
  · have hnot := (tally_eq_zero_iff hf rfl).1 himpl u
    rw [hu] at hnot
    exact absurd hnot (by simp [Pc.deletesImpl])
  · have hnot := (tally_eq_zero_iff hf rfl).1 himpl u
    rw [hu] at hnot
    exact absurd hnot (by simp [Pc.deletesImpl])

omit [DecidableEq Tid] in
/-- A thread that is to delete the `weakref_impl` has let the last reference go. -/
theorem gone (h : Duties ph mStrong mWeak deleted implDeleted pc)
    (hw : WeakCounted mWeak strong weak pc) (ht : pc t = p) (hp : p.deletesImpl = 1) :
    mWeak = 0 ∧ strongReferences strong pc = 0 := by
  have hzero := h.impl.of_weight hw.few rfl (i := t) (by rw [ht, hp]; exact Nat.one_pos)
  have hle := hw.strong_le
  omega

omit [DecidableEq Tid] in
theorem not_stray (h : Duties ph mStrong mWeak deleted implDeleted pc) (ht : pc t = p) :
    p.stray ph = false :=
  ht ▸ h.stray t

/-- A strong reference is acquired, and the value may have been taken off: what keeps the object
alive changes, but something does before and after. -/
theorem acquire (h : Duties ph mStrong mWeak deleted implDeleted pc) (hf : AlmostIdle .outside pc)
    (hkeep : 0 < keepers ph mStrong mWeak) (hkeep' : 0 < keepers ph' mStrong' mWeak')
    (hw : 0 < mWeak) (hw' : 0 < mWeak') (hph : ph' = ph ∨ ph' ≠ .fresh) :
    Duties ph' mStrong' mWeak' deleted implDeleted (update pc t .outside) := by
  obtain ⟨rfl, rfl, hnone⟩ := h.early hf hkeep hw
  have hweights (u : Tid) : (pc u).deletes ph' = 0 ∧ (pc u).deletesImpl = 0 := by
    obtain ⟨hstrong, hweak, hdestructor⟩ := hnone u
    exact ⟨Pc.deletes_of_ne hstrong hweak, Pc.deletesImpl_of_ne hweak hdestructor⟩
  have hzero {w : Pc → ℕ} (hout : w .outside = 0) (hpc : ∀ u, w (pc u) = 0) :
      tally w (update pc t .outside) = 0 := by
    rw [tally_update_eq hf hout (by rw [hout, hpc])]
    exact (tally_eq_zero_iff hf hout).2 hpc
  refine ⟨?_, ?_, stray_update (fun u => ?_) rfl⟩
  · unfold Due
    rw [hzero rfl fun u => (hweights u).1, if_neg (by omega)]
  · unfold Due
    rw [hzero rfl fun u => (hweights u).2, if_neg (by omega)]
  · rcases hph with rfl | hne
    · exact h.stray u
    · obtain ⟨-, -, hdestructor⟩ := hnone u
      exact Pc.stray_of_ne hne hdestructor

end Duties

/-- **What one step does to the duties.** -/
theorem duties_step (h : Step s a s') (hfew : strongReferences s.strong s.pc < 2 ^ 28)
    (hc : Counted ph s.mStrong s.strong s.acquired s.pc)
    (hc' : Counted ph' s'.mStrong s'.strong s'.acquired s'.pc)
    (hw : WeakCounted s.mWeak s.strong s.weak s.pc)
    (hw' : WeakCounted s'.mWeak s'.strong s'.weak s'.pc)
    (hsound : ph.isSound = true) (hsound' : ph'.isSound = true)
    (hph : ph' = ph ∨ ph' ≠ .fresh ∧ s.strong < s'.strong)
    (hg : Guarded s.created s.strong s.weak s.pc)
    (hd : Duties ph s.mStrong s.mWeak s.deleted s.implDeleted s.pc) :
    Duties ph' s'.mStrong s'.mWeak s'.deleted s'.implDeleted s'.pc := by
  rcases Nat.lt_or_ge s.strong s'.strong with hlt | hge
  · obtain ⟨t, ht, hpc, hdeleted, himpl⟩ := acquires_step h hlt
    have hrefs := refs_pos hc hg ht
    have hrefs' : 0 < strongReferences s'.strong s'.pc :=
      Counted.pos_of_strong (Nat.zero_lt_of_lt hlt)
    have hle := hw.strong_le
    have hle' := hw'.strong_le
    have hkeep := keepers_pos hc hw hsound hrefs
    have hkeep' := keepers_pos hc' hw' hsound' hrefs'
    rw [hdeleted, himpl, hpc]
    exact hd.acquire hc.few hkeep hkeep' (by omega) (by omega) (hph.imp_right And.left)
  obtain rfl : ph' = ph := hph.resolve_right fun hne => by omega
  have hf := hc.few
  have hbias := hc.of_sound hsound
  have hrefs {t : Tid} {p : Pc} (ht : s.pc t = p) (hp : p.strongRefs = 1) :=
    hc.pos_of_refs ht hp
  have hpos {t : Tid} {p : Pc} (ht : s.pc t = p) (hp : p.needsRef = true) : 0 < s.mWeak := by
    have hheld := hg.pos ht hp
    have hcount := hw.count
    omega
  cases h with
  | callFirst ht _ _ => exact hd.stay hf ht rfl rfl rfl
  | callIncStrong ht _ => exact hd.stay hf ht rfl rfl rfl
  | callDecStrong ht _ _ => exact hd.stay hf ht rfl rfl rfl
  | callIncWeak ht _ => exact hd.stay hf ht rfl rfl rfl
  | callDecWeak ht _ _ => exact hd.stay hf ht rfl rfl rfl
  | callAttemptWeak ht _ => exact hd.stay hf ht rfl rfl rfl
  | callAttemptStrong ht _ => exact hd.stay hf ht rfl rfl rfl
  | @incStrongWeak t first ht =>
      obtain rfl : first = false := by simpa [ht, Pc.isFirst] using hg.shared t
      have hheld := hpos ht rfl
      exact hd.walk hf ht rfl rfl rfl (fun _ => .rfl) (by dsimp only; omega)
  | incStrong _ _ => exact absurd hge (Nat.not_succ_le_self _)
  | incStrongFirst ht heq =>
      refine hd.walk hf ht rfl rfl rfl (fun _ => ?_) .rfl
      simp only [initialStrongValue] at heq ⊢
      omega
  | incStrongAdd _ => exact absurd hge (Nat.not_succ_le_self _)
  | decStrong ht hne =>
      have hone := hrefs ht rfl
      refine hd.walk hf ht rfl rfl rfl (fun _ => ?_) .rfl
      dsimp only
      omega
  | decStrongLast ht hone =>
      have hpos' := hrefs ht rfl
      obtain ⟨rfl, hcount⟩ := hbias.resolve_left fun hfresh => by omega
      refine ⟨hd.object.arise hf rfl (by rw [ht]; rfl) rfl ?_ ?_,
        hd.impl.keep hf rfl (by rw [ht]; rfl) .rfl, stray_update hd.stray rfl⟩
      · simp only [keepers]
        omega
      · simp only [keepers]
        omega
  | lastStrong ht =>
      have hfresh : ph'.isFresh = false := hd.not_stray ht
      refine ⟨hd.object.discharge hf rfl ?_ rfl, hd.impl.keep hf rfl (by rw [ht]; rfl) .rfl,
        stray_update hd.stray hfresh⟩
      simp [ht, Pc.deletes, hfresh]
  | destructorNever ht heq =>
      have hfresh : ph'.isFresh = false := hd.not_stray ht
      obtain ⟨rfl, hcount⟩ := hbias.resolve_left fun h => by simp [h.1, Phase.isFresh] at hfresh
      simp only [initialStrongValue] at heq
      omega
  | destructor ht _ => exact hd.stay hf ht rfl rfl rfl
  | decWeak ht hne =>
      have hone := hw.pos_of_refs ht rfl
      exact hd.walk hf ht rfl rfl rfl (fun _ => .rfl) (by dsimp only; omega)
  | decWeakLast ht hone =>
      refine ⟨?_, hd.impl.arise hf rfl (by rw [ht]; rfl) rfl (by omega) (by dsimp only; omega),
        stray_update hd.stray rfl⟩
      rcases hbias with ⟨rfl, -⟩ | ⟨rfl, -⟩
      · refine hd.object.arise hf rfl (by rw [ht]; rfl) rfl ?_ ?_
        · simp only [keepers]
          omega
        · simp only [keepers]
          omega
      · exact hd.object.keep hf rfl (by rw [ht]; rfl) .rfl
  | lastWeakNever ht heq =>
      obtain ⟨hzero, hnone⟩ := hd.gone hw ht rfl
      obtain ⟨rfl, -⟩ := hbias.resolve_right fun h => by
        simp only [initialStrongValue] at heq
        omega
      exact ⟨hd.object.discharge hf rfl (by rw [ht]; rfl) rfl,
        hd.impl.keep hf rfl (by rw [ht]; rfl) .rfl, stray_update hd.stray rfl⟩
  | lastWeak ht hne =>
      obtain ⟨hzero, hnone⟩ := hd.gone hw ht rfl
      obtain ⟨rfl, -⟩ := hbias.resolve_left fun h => hne (by
        simp only [initialStrongValue]
        omega)
      exact ⟨hd.object.keep hf rfl (by rw [ht]; rfl) .rfl,
        hd.impl.discharge hf rfl (by rw [ht]; rfl) rfl, stray_update hd.stray rfl⟩
  | lastDestructorNever ht _ =>
      exact ⟨hd.object.keep hf rfl (by rw [ht]; rfl) .rfl,
        hd.impl.discharge hf rfl (by rw [ht]; rfl) rfl, stray_update hd.stray rfl⟩
  | lastDestructor ht hne =>
      have hfresh : (!ph'.isFresh) = false := hd.not_stray ht
      obtain ⟨hzero, hnone⟩ := hd.gone hw ht rfl
      obtain ⟨rfl, hcount⟩ := hbias.resolve_right fun h => by simp [h.1, Phase.isFresh] at hfresh
      refine absurd ?_ hne
      simp only [initialStrongValue]
      omega
  | incWeak ht =>
      have hheld := hpos ht rfl
      exact hd.walk hf ht rfl rfl rfl (fun _ => .rfl) (by dsimp only; omega)
  | attemptWeakRead ht _ => exact hd.stay hf ht rfl rfl rfl
  | attemptWeakNone ht _ => exact hd.stay hf ht rfl rfl rfl
  | attemptWeakSwap ht heq => exact hd.walk hf ht rfl rfl rfl (fun _ => .rfl) (by dsimp only; omega)
  | attemptWeakAgain ht _ => exact hd.stay hf ht rfl rfl rfl
  | attemptWeak ht =>
      have hheld := hpos ht rfl
      exact hd.walk hf ht rfl rfl rfl (fun _ => .rfl) (by dsimp only; omega)
  | attemptRead ht _ => exact hd.stay hf ht rfl rfl rfl
  | attemptNever ht _ _ => exact hd.stay hf ht rfl rfl rfl
  | attemptNone ht _ => exact hd.stay hf ht rfl rfl rfl
  | attemptSwap ht heq => exact hd.walk hf ht rfl rfl rfl (fun _ => by dsimp only; omega) .rfl
  | attemptAgain ht _ => exact hd.stay hf ht rfl rfl rfl
  | promoteSwap ht heq _ => exact hd.walk hf ht rfl rfl rfl (fun _ => by dsimp only; omega) .rfl
  | promoteUnneeded ht heq _ => exact hd.walk hf ht rfl rfl rfl (fun _ => by dsimp only; omega) .rfl
  | promoteAgain ht _ => exact hd.stay hf ht rfl rfl rfl
  | promoteRead ht _ => exact hd.stay hf ht rfl rfl rfl
  | promoteNone ht _ => exact hd.stay hf ht rfl rfl rfl
  | unneeded ht => exact hd.stay hf ht rfl rfl rfl
  | fixRead ht _ => exact hd.stay hf ht rfl rfl rfl
  | fixNone _ _ => exact absurd hge (Nat.not_succ_le_self _)
  | fixSwap _ _ => exact absurd hge (Nat.not_succ_le_self _)
  | fixAgain ht _ => exact hd.stay hf ht rfl rfl rfl

end

/-! ### Runs -/

/-- What holds in every state of a run. -/
structure Life (ph : Phase) (s : State Tid) : Prop where
  sound : ph.isSound = true
  counted : Counted ph s.mStrong s.strong s.acquired s.pc
  weakCounted : WeakCounted s.mWeak s.strong s.weak s.pc
  guarded : Guarded s.created s.strong s.weak s.pc
  duties : Duties ph s.mStrong s.mWeak s.deleted s.implDeleted s.pc

section

variable [DecidableEq Tid] {s s' : State Tid} {a : Action Tid} {ph : Phase} {strong weak : ℕ}

theorem life_init (hpos : 0 < strong + weak) :
    ∃ ph, Life ph (start true strong weak : State Tid) := by
  have hinit : (machine Tid).init (start true strong weak) := ⟨true, strong, weak, rfl⟩
  obtain ⟨ph, hc, hsound⟩ := counted_init hinit
  have hrefs : strongReferences strong (start true strong weak : State Tid).pc = strong := by
    simp [strongReferences, start, @tally_outside Tid Pc.strongRefs rfl]
  have hkeep : 0 < keepers ph (start true strong weak : State Tid).mStrong (strong + weak) := by
    rcases hc.of_sound hsound with ⟨rfl, hcount⟩ | ⟨rfl, hcount⟩
    · simp only [keepers]
      omega
    · simp only [keepers, start] at hcount hrefs ⊢
      split at hcount
      · simp only [initialStrongValue] at hcount
        omega
      · omega
  refine ⟨ph, hsound, hc, weak_counted_init hinit, ⟨fun t => ⟨?_, ?_⟩, rfl, fun t => rfl⟩,
    ⟨?_, ?_, fun t => rfl⟩⟩
  · simp [start, Pc.needsStrong]
  · simp [start, Pc.needsRef]
  · unfold Due
    rw [if_neg (by simp only [start] at hkeep ⊢; omega)]
    exact (Nat.zero_add _).trans (tally_outside (w := Pc.deletes ph) rfl)
  · unfold Due
    rw [if_neg (by simp only [start]; omega)]
    exact (Nat.zero_add _).trans (tally_outside (w := Pc.deletesImpl) rfl)

theorem Life.step (h : Life ph s) (hs : Step s a s') (hfew : Few s a) : ∃ ph', Life ph' s' := by
  have hfew' := h.counted.few_strong hfew
  obtain ⟨ph', hc', hsound, hph⟩ := counted_step hs hfew' h.counted
  have hsound' : ph'.isSound = true := hsound.2 ⟨h.sound, h.guarded.sane⟩
  have hw' := weak_counted_step hs h.weakCounted
  exact ⟨ph', hsound', hc', hw', guarded_step hs hfew' h.counted h.guarded,
    duties_step hs hfew' h.counted hc' h.weakCounted hw' h.sound hsound' hph h.guarded h.duties⟩

/-- **What a run keeps.** -/
theorem life_run {tr : List (State Tid × Action Tid)} (hpos : 0 < strong + weak)
    (h : ((machine Tid).restrict Few).Run (start true strong weak) tr s) : ∃ ph, Life ph s := by
  induction h with
  | nil => exact life_init hpos
  | snoc _ hs ih =>
      obtain ⟨ph, hl⟩ := ih
      exact hl.step hs.1 hs.2

end

namespace Life

variable {s : State Tid} {ph : Phase}

/-- The object has been deleted: there is no strong reference. -/
theorem of_deleted (h : Life ph s) (hpos : 0 < s.deleted) :
    strongReferences s.strong s.pc = 0 := by
  by_contra hne
  have hkeep := keepers_pos h.counted h.weakCounted h.sound (Nat.pos_of_ne_zero hne)
  have hgone := (h.duties.object.of_pos hpos).1
  omega

/-- The `weakref_impl` has been deleted: there is no reference, and no thread is in a function. -/
theorem of_implDeleted (h : Life ph s) (hpos : 0 < s.implDeleted) :
    s.strong = 0 ∧ s.weak = 0 ∧ ∀ t, s.pc t = .outside := by
  obtain ⟨hgone, hnobody⟩ := h.duties.impl.of_pos hpos
  have hcount := h.weakCounted.count
  have hidle : tally Pc.weakRefs s.pc = 0 := by omega
  refine ⟨by omega, by omega, fun t => ?_⟩
  have hduty := (tally_eq_zero_iff h.weakCounted.few rfl).1 hnobody t
  have hown := (tally_eq_zero_iff h.weakCounted.few rfl).1 hidle t
  rcases Pc.weakRefs_or (h.guarded.shared t) with hout | hlast | hlast | hrefs | hneeds
  · exact hout
  · rw [hlast] at hduty
    exact absurd hduty (by simp [Pc.deletesImpl])
  · rw [hlast] at hduty
    exact absurd hduty (by simp [Pc.deletesImpl])
  · omega
  · have hheld := h.guarded.pos rfl hneeds
    omega

/-- A thread that may acquire a strong reference finds the object alive, and nobody about to delete
it. -/
theorem alive (h : Life ph s) {t : Tid} (ht : (s.pc t).acquires = true) :
    s.deleted = 0 ∧ ∀ u, s.pc u ≠ .lastStrong ∧ s.pc u ≠ .lastWeak := by
  have hrefs := refs_pos h.counted h.guarded ht
  have hkeep := keepers_pos h.counted h.weakCounted h.sound hrefs
  have hle := h.weakCounted.strong_le
  obtain ⟨hdeleted, -, hnone⟩ := h.duties.early h.counted.few hkeep (by omega)
  exact ⟨hdeleted, fun u => ⟨(hnone u).1, (hnone u).2.1⟩⟩

end Life

end RefCounts

open RefCounts

/-- **Nothing is deleted twice, or while it is in use.**  Whatever the threads do to an object that
is shared already, with fewer than `2 ^ 28` references: the object is deleted at most once, and
never while a strong reference is held; the `weakref_impl` is deleted at most once, and never while
a reference is held or a thread is in one of the functions; and a call that returns with a strong
reference, such as an `attemptIncStrong` that returns true, returns before the object is deleted.
-/
theorem deleted_safely {Tid : Type} [DecidableEq Tid] {strong weak : ℕ} {s : State Tid}
    {tr : List (State Tid × Action Tid)} (hpos : 0 < strong + weak)
    (h : ((machine Tid).restrict Few).Run (start true strong weak) tr s) :
    (s.deleted ≤ 1 ∧ (0 < s.deleted → s.strong = 0)) ∧
    (s.implDeleted ≤ 1 ∧
      (0 < s.implDeleted → s.strong = 0 ∧ s.weak = 0 ∧ ∀ t, s.pc t = .outside)) ∧
    ∀ a s', Step s a s' → s.strong < s'.strong →
      s.deleted = 0 ∧ s'.deleted = 0 ∧ ∀ u, s.pc u ≠ .lastStrong ∧ s.pc u ≠ .lastWeak := by
  obtain ⟨ph, hl⟩ := life_run hpos h
  refine ⟨⟨hl.duties.object.le_one, fun hdel => ?_⟩,
    ⟨hl.duties.impl.le_one, hl.of_implDeleted⟩, fun a s' hs hlt => ?_⟩
  · have hnone := hl.of_deleted hdel
    unfold strongReferences at hnone
    omega
  · obtain ⟨t, ht, -, hdeleted, -⟩ := acquires_step hs hlt
    obtain ⟨hzero, hnobody⟩ := hl.alive ht
    exact ⟨hzero, hdeleted.trans hzero, hnobody⟩

/-- Thread 0 releases the last strong reference while thread 1 is about to copy it. -/
theorem deleted_safely_promoting : ∃ (tr : List (State (Fin 2) × Action (Fin 2)))
    (s : State (Fin 2)), ((machine (Fin 2)).restrict Few).Run (start true 1 1) tr s ∧
      s.pc 1 = .attemptSwap 1 (by decide) ∧ s.deleted = 1 ∧ s.implDeleted = 0 ∧ s.strong = 0 := by
  have h₀ : (machine (Fin 2)).init (start true 1 1) := ⟨_, _, _, rfl⟩
  have h₁ := Machine.Run.nil.snoc (M := machine (Fin 2))
    (Step.callAttemptStrong (s := start true 1 1) (t := 1) rfl (by decide))
  have h₂ := h₁.snoc (Step.attemptWeak (t := 1) rfl)
  have h₃ := h₂.snoc (Step.attemptRead (t := 1) rfl (by decide))
  have h₄ := h₃.snoc
    (Step.callDecStrong (t := 0) rfl Nat.one_pos (Fin.forall_fin_two.2 ⟨by decide, by decide⟩))
  have h₅ := h₄.snoc (Step.decStrongLast (t := 0) rfl rfl)
  have h₆ := h₅.snoc (Step.lastStrong (t := 0) rfl)
  obtain ⟨hrun, -⟩ := few_of_length h₀ h₆ (by decide)
  obtain ⟨⟨hle, hstrong⟩, -, -⟩ := deleted_safely Nat.two_pos hrun
  exact ⟨_, _, hrun, rfl, le_antisymm hle Nat.one_pos, rfl, hstrong Nat.one_pos⟩

end VModule
