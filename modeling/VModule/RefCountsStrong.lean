/-
**What `mStrong` counts.**

Over the machine of `VModule/RefCounts.lean`.  `mStrong` is the number of strong references plus a
bias.  The bias is `INITIAL_STRONG_VALUE` at first, and there are two ways to take it off: the call
of `incStrong` that has found the bare value subtracts it, whatever has happened since, and every
call of `attemptIncStrong` subtracts it as long as it is there.  When both happen, it is taken off
twice, and the count stays negative for ever.

Main definitions:

* `VModule.RefCounts.Phase`, `VModule.RefCounts.Counted` — the bias, and the invariant;
* `VModule.RefCounts.Sane` — the steps that keep `mStrong` right.

Main results:

* `VModule.RefCounts.counted_step` — what one step does to the bias;
* `VModule.RefCounts.weak_counted_step` — `mWeak` is the number of references;
* `VModule.RefCounts.Counted.fits` — neither counter overflows;
* `VModule.mStrong_counts_iff` — **when `mStrong` counts the strong references**.
-/

import VModule.RefCounts

set_option relaxedAutoImplicit false
set_option autoImplicit false

namespace VModule

namespace RefCounts

open Function

variable {Tid : Type}

/-! ### The bias -/

namespace Pc

/-- Will subtract `INITIAL_STRONG_VALUE`. -/
def adds : Pc → ℕ
  | incStrongAdd => 1
  | _ => 0

/-- Will subtract `INITIAL_STRONG_VALUE`, or will see to it that it is gone. -/
def pending : Pc → ℕ
  | incStrongAdd | unneeded | fixRead | fixSwap _ _ => 1
  | _ => 0

/-- In the last loop of `attemptIncStrong`. -/
def isFix : Pc → Bool
  | fixSwap _ _ => true
  | _ => false

theorem adds_le (p : Pc) : p.adds ≤ p.strongRefs := by
  cases p <;> simp [adds, strongRefs]

theorem strongRefs_le (p : Pc) : p.strongRefs ≤ p.weakRefs := by
  cases p <;> simp [strongRefs, weakRefs]

end Pc

/-- What has happened to `INITIAL_STRONG_VALUE`. -/
inductive Phase where
  /-- It is there. -/
  | fresh
  /-- It has been taken off. -/
  | clean
  /-- It has been taken off, and will be once more. -/
  | half
  /-- It has been taken off twice. -/
  | broken

namespace Phase

/-- The difference between `mStrong` and the number of strong references. -/
def bias : Phase → Int
  | fresh => initialStrongValue
  | clean => 0
  | half => 0
  | broken => -initialStrongValue

/-- How many threads may be about to subtract. -/
def Adders : Phase → ℕ → Prop
  | fresh, n => n ≤ 1
  | clean, n => n = 0
  | half, n => n = 1
  | broken, n => n = 0

def isSound : Phase → Bool
  | fresh => true
  | clean => true
  | half => false
  | broken => false

end Phase

/-- The number of strong references: those held, and the own ones of calls in progress. -/
noncomputable def strongReferences (strong : ℕ) (pc : Tid → Pc) : ℕ :=
  strong + tally Pc.strongRefs pc

/-- `mStrong` is the number of strong references plus the bias. -/
structure Counted (ph : Phase) (mStrong : Int) (strong : ℕ) (acquired : Bool)
    (pc : Tid → Pc) : Prop where
  few : AlmostIdle .outside pc
  count : mStrong = strongReferences strong pc + ph.bias
  adders : ph.Adders (tally Pc.adds pc)
  /-- While the value is there, nothing has happened, or somebody will take it off. -/
  untouched : ph = .fresh →
    strongReferences strong pc = 0 ∧ acquired = false ∨ 0 < tally Pc.pending pc
  acquired : ph ≠ .fresh → acquired = true

namespace Counted

variable {ph : Phase} {mStrong mStrong' : Int} {strong strong' : ℕ} {acquired acquired' : Bool}
  {pc : Tid → Pc}

theorem adds_le (h : Counted ph mStrong strong acquired pc) :
    tally Pc.adds pc ≤ strongReferences strong pc := by
  have := tally_mono h.few (w := Pc.strongRefs) rfl Pc.adds_le
  unfold strongReferences
  omega

/-- Some strong reference exists: somebody will take the value off. -/
theorem pending_of_pos (h : Counted ph mStrong strong acquired pc)
    (hpos : 0 < strongReferences strong pc) (hph : ph = .fresh) : 0 < tally Pc.pending pc :=
  (h.untouched hph).resolve_left fun hno => by omega

theorem pos_of_strong (hpos : 0 < strong) : 0 < strongReferences strong pc := by
  unfold strongReferences
  omega

theorem pos_of_refs (h : Counted ph mStrong strong acquired pc) {t : Tid} {p : Pc}
    (ht : pc t = p) (hp : p.strongRefs = 1) : 0 < strongReferences strong pc := by
  have hle := le_tally h.few (w := Pc.strongRefs) rfl t
  rw [ht, hp] at hle
  unfold strongReferences
  omega

variable [DecidableEq Tid]

theorem references_update (h : Counted ph mStrong strong acquired pc) {t : Tid} {p q : Pc}
    (ht : pc t = p) (k : ℕ) :
    strongReferences k (update pc t q) + p.strongRefs + strong =
      strongReferences strong pc + q.strongRefs + k := by
  have htally := tally_update h.few (w := Pc.strongRefs) rfl t q
  rw [ht] at htally
  unfold strongReferences
  omega

/-- A thread makes a step that keeps the bias. -/
theorem move (h : Counted ph mStrong strong acquired pc) {t : Tid} {p q : Pc} (ht : pc t = p)
    (hcount : mStrong' + p.strongRefs + strong = mStrong + q.strongRefs + strong')
    (hadds : q.adds = p.adds)
    (hpending : ph = .fresh → 0 < tally Pc.pending (update pc t q))
    (hacquired : acquired = true → acquired' = true) :
    Counted ph mStrong' strong' acquired' (update pc t q) := by
  have hrefs := h.references_update (q := q) ht strong'
  have hold := h.count
  refine ⟨h.few.update t q, by omega, ?_, fun hph => .inr (hpending hph), fun hph => ?_⟩
  · rw [tally_update_eq h.few rfl (by rw [ht, hadds])]
    exact h.adders
  · exact hacquired (h.acquired hph)

/-- A thread goes on without touching a strong reference. -/
theorem walk (h : Counted ph mStrong strong acquired pc) {t : Tid} {p q : Pc} (ht : pc t = p)
    (hrefs : q.strongRefs = p.strongRefs) (hadds : q.adds = p.adds)
    (hpending : q.pending = p.pending) :
    Counted ph mStrong strong acquired (update pc t q) := by
  have hrefs' := h.references_update (q := q) ht strong
  have hold := h.count
  have hp : tally Pc.pending (update pc t q) = tally Pc.pending pc :=
    tally_update_eq h.few rfl (by rw [ht, hpending])
  refine ⟨h.few.update t q, by omega, ?_, fun hph => ?_, h.acquired⟩
  · rw [tally_update_eq h.few rfl (by rw [ht, hadds])]
    exact h.adders
  · rw [hp]
    refine (h.untouched hph).imp_left fun hno => ⟨?_, hno.2⟩
    omega

/-- A thread takes a strong reference, and will see to it that the value is taken off. -/
theorem grab (h : Counted ph mStrong strong acquired pc) {t : Tid} {p q : Pc} (ht : pc t = p)
    (hp : p.strongRefs = 0) (hq : q.strongRefs = 1) (hadds : q.adds = p.adds)
    (hpending : q.pending = 1) :
    Counted ph (mStrong + 1) strong acquired (update pc t q) := by
  refine h.move ht (by rw [hp, hq]; omega) hadds (fun _ => ?_) id
  have hle := le_tally (h.few.update t q) (w := Pc.pending) rfl t
  rw [update_self, hpending] at hle
  omega

/-- Some strong reference exists before the step, and the thread keeps what it will do. -/
theorem touch (h : Counted ph mStrong strong acquired pc) {t : Tid} {p q : Pc} (ht : pc t = p)
    (hcount : mStrong' + p.strongRefs + strong = mStrong + q.strongRefs + strong')
    (hadds : q.adds = p.adds) (hpending : q.pending = p.pending)
    (hpos : ph = .fresh → 0 < tally Pc.pending pc)
    (hacquired : acquired = true → acquired' = true) :
    Counted ph mStrong' strong' acquired' (update pc t q) := by
  refine h.move ht hcount hadds (fun hph => ?_) hacquired
  rw [tally_update_eq h.few rfl (by rw [ht, hpending])]
  exact hpos hph

/-- The last loop finds that the value has been taken off, and a call returns. -/
theorem finish (h : Counted ph mStrong strong acquired pc) {t : Tid} (ht : pc t = .fixRead)
    (hlt : mStrong < initialStrongValue) :
    Counted ph mStrong (strong + 1) true (update pc t .outside) := by
  refine h.move ht (by simp [Pc.strongRefs]; omega) rfl (fun hph => ?_) fun _ => rfl
  have hcount := h.count
  subst hph
  simp only [Phase.bias] at hcount
  omega

end Counted

/-! ### Taking the value off -/

namespace Counted

variable {ph : Phase} {mStrong : Int} {strong : ℕ} {acquired : Bool} {pc : Tid → Pc}

/-- The bare value is there only before anything has happened. -/
theorem of_initial (h : Counted ph mStrong strong acquired pc)
    (hfew : strongReferences strong pc < 2 ^ 28) (heq : mStrong = initialStrongValue) :
    ph = .fresh ∧ strongReferences strong pc = 0 := by
  have hcount := h.count
  cases ph <;> simp only [Phase.bias, initialStrongValue] at hcount heq ⊢ <;> simp <;> omega

/-- The value is there: nobody has taken it off. -/
theorem of_le (h : Counted ph mStrong strong acquired pc)
    (hfew : strongReferences strong pc < 2 ^ 28) (hle : initialStrongValue ≤ mStrong) :
    ph = .fresh := by
  have hcount := h.count
  cases ph <;> simp only [Phase.bias, initialStrongValue] at hcount hle ⊢ <;> omega

/-- The value has been seen to be gone, or not to be bare. -/
theorem pending_of_ne (h : Counted ph mStrong strong acquired pc)
    (hne : mStrong ≠ initialStrongValue) (hph : ph = .fresh) : 0 < tally Pc.pending pc := by
  have hcount := h.count
  refine h.pending_of_pos (Nat.pos_of_ne_zero fun h0 => hne ?_) hph
  rw [hcount, h0, hph]
  simp [Phase.bias]

variable [DecidableEq Tid]

/-- `incStrong` finds the bare value: it will subtract it, and nobody else will. -/
theorem first (h : Counted ph mStrong strong acquired pc)
    (hfew : strongReferences strong pc < 2 ^ 28) {t : Tid} {first : Bool}
    (ht : pc t = .incStrong first) (heq : mStrong = initialStrongValue) :
    Counted ph (mStrong + 1) strong acquired (update pc t .incStrongAdd) := by
  obtain ⟨hph, hzero⟩ := h.of_initial hfew heq
  subst hph
  have hrefs := h.references_update (q := .incStrongAdd) ht strong
  have hadds := tally_update h.few (w := Pc.adds) rfl t .incStrongAdd
  have hle := h.adds_le
  have hpending := le_tally (h.few.update t .incStrongAdd) (w := Pc.pending) rfl t
  have hcount := h.count
  rw [ht] at hadds
  rw [update_self] at hpending
  simp only [Pc.strongRefs, Pc.adds, Pc.pending] at hrefs hadds hpending
  refine ⟨h.few.update t _, by omega, ?_, fun _ => .inr (by omega), fun hne => absurd rfl hne⟩
  change tally Pc.adds _ ≤ 1
  omega

/-- The one that will subtract, does. -/
theorem add (h : Counted ph mStrong strong acquired pc) {t : Tid} (ht : pc t = .incStrongAdd) :
    ∃ ph', Counted ph' (mStrong + -initialStrongValue) (strong + 1) true
      (update pc t .outside) ∧ ph'.isSound = ph.isSound ∧ ph' ≠ .fresh := by
  have hrefs := h.references_update (q := .outside) ht (strong + 1)
  have hadds := tally_update h.few (w := Pc.adds) rfl t .outside
  have hpos := le_tally h.few (w := Pc.adds) rfl t
  have hcount := h.count
  have hold := h.adders
  rw [ht] at hadds hpos
  simp only [Pc.strongRefs, Pc.adds] at hrefs hadds hpos
  cases ph with
  | fresh =>
      change tally Pc.adds pc ≤ 1 at hold
      refine ⟨.clean, ⟨h.few.update t _, ?_, ?_, by simp, fun _ => rfl⟩, rfl, by simp⟩
      · simp only [Phase.bias] at hcount ⊢
        omega
      · change tally Pc.adds _ = 0
        omega
  | half =>
      change tally Pc.adds pc = 1 at hold
      refine ⟨.broken, ⟨h.few.update t _, ?_, ?_, by simp, fun _ => rfl⟩, rfl, by simp⟩
      · simp only [Phase.bias] at hcount ⊢
        omega
      · change tally Pc.adds _ = 0
        omega
  | clean =>
      change tally Pc.adds pc = 0 at hold
      omega
  | broken =>
      change tally Pc.adds pc = 0 at hold
      omega

/-- The last loop takes the value off; if somebody else will subtract it, that is once too often. -/
theorem fix (h : Counted ph mStrong strong acquired pc)
    (hfew : strongReferences strong pc < 2 ^ 28) {t : Tid} {c : Int}
    {hc : initialStrongValue ≤ c} (ht : pc t = .fixSwap c hc) (heq : mStrong = c) :
    ph = .fresh ∧ ∃ ph', Counted ph' (c - initialStrongValue) (strong + 1) true
      (update pc t .outside) ∧ (ph'.isSound = true ↔ tally Pc.adds pc = 0) ∧ ph' ≠ .fresh := by
  have hph := h.of_le hfew (by omega)
  subst hph
  have hrefs := h.references_update (q := .outside) ht (strong + 1)
  have hadds : tally Pc.adds (update pc t .outside) = tally Pc.adds pc :=
    tally_update_eq h.few rfl (by rw [ht]; rfl)
  have hcount := h.count
  have hold : tally Pc.adds pc ≤ 1 := h.adders
  simp only [Pc.strongRefs] at hrefs
  simp only [Phase.bias] at hcount
  refine ⟨rfl, ?_⟩
  rcases Nat.le_one_iff_eq_zero_or_eq_one.1 hold with h0 | h1
  · refine ⟨.clean, ⟨h.few.update t _, ?_, ?_, by simp, fun _ => rfl⟩,
      by simp [Phase.isSound, h0], by simp⟩
    · simp only [Phase.bias]
      omega
    · exact hadds.trans h0
  · refine ⟨.half, ⟨h.few.update t _, ?_, ?_, by simp, fun _ => rfl⟩,
      by simp [Phase.isSound, h1], by simp⟩
    · simp only [Phase.bias]
      omega
    · exact hadds.trans h1

end Counted

/-! ### Steps -/

/-- The last loop of `attemptIncStrong` does not take the value off while a call of `incStrong` will
subtract it. -/
def Sane (s : State Tid) (a : Action Tid) : Prop :=
  ∀ t c h, a = .go t → s.pc t = .fixSwap c h → s.mStrong = c → ∀ u, s.pc u ≠ .incStrongAdd

theorem sane_call {s : State Tid} {t : Tid} : Sane s (.call t) := by
  intro u c h ha
  exact absurd ha (by simp)

theorem sane_go {s : State Tid} {t : Tid} {p : Pc} (ht : s.pc t = p) (hp : p.isFix = false) :
    Sane s (.go t) := by
  intro u c h ha hu
  obtain rfl := Action.go.inj ha
  rw [ht] at hu
  subst hu
  exact absurd hp (by simp [Pc.isFix])

/-- After the step the bias is known, and it is sound if it was and the step is sane.  It changes
only when a call takes the value off and returns. -/
def Follows (ph : Phase) (s : State Tid) (a : Action Tid) (s' : State Tid) : Prop :=
  ∃ ph', Counted ph' s'.mStrong s'.strong s'.acquired s'.pc ∧
    (ph'.isSound = true ↔ ph.isSound = true ∧ Sane s a) ∧
    (ph' = ph ∨ ph' ≠ .fresh ∧ s.strong < s'.strong)

section

variable {s s' : State Tid} {a : Action Tid} {ph : Phase}

theorem Follows.same (h : Counted ph s'.mStrong s'.strong s'.acquired s'.pc) (ha : Sane s a) :
    Follows ph s a s' :=
  ⟨ph, h, by simp [ha], .inl rfl⟩

theorem Counted.adds_eq_zero_iff (h : Counted ph s.mStrong s.strong s.acquired s.pc) :
    tally Pc.adds s.pc = 0 ↔ ∀ u, s.pc u ≠ .incStrongAdd := by
  rw [tally_eq_zero_iff h.few rfl]
  refine forall_congr' fun u => ?_
  cases s.pc u <;> simp [Pc.adds]

variable [DecidableEq Tid]

/-- **What one step does to the bias.** -/
theorem counted_step (h : Step s a s') (hfew : strongReferences s.strong s.pc < 2 ^ 28)
    (hc : Counted ph s.mStrong s.strong s.acquired s.pc) : Follows ph s a s' := by
  cases h with
  | callFirst ht _ _ => exact .same (hc.walk ht rfl rfl rfl) sane_call
  | callIncStrong ht _ => exact .same (hc.walk ht rfl rfl rfl) sane_call
  | callDecStrong ht hpos _ =>
      refine .same (hc.touch ht ?_ rfl rfl (hc.pending_of_pos ?_) id) sane_call
      · simp only [Pc.strongRefs]
        omega
      · exact Counted.pos_of_strong hpos
  | callIncWeak ht _ => exact .same (hc.walk ht rfl rfl rfl) sane_call
  | callDecWeak ht _ _ => exact .same (hc.walk ht rfl rfl rfl) sane_call
  | callAttemptWeak ht _ => exact .same (hc.walk ht rfl rfl rfl) sane_call
  | callAttemptStrong ht _ => exact .same (hc.walk ht rfl rfl rfl) sane_call
  | incStrongWeak ht => exact .same (hc.walk ht rfl rfl rfl) (sane_go ht rfl)
  | incStrong ht hne =>
      refine .same (hc.touch ht ?_ rfl rfl (hc.pending_of_ne hne) fun _ => rfl) (sane_go ht rfl)
      simp only [Pc.strongRefs]
      omega
  | incStrongFirst ht heq => exact .same (hc.first hfew ht heq) (sane_go ht rfl)
  | incStrongAdd ht =>
      obtain ⟨ph', hc', hsound, hne⟩ := hc.add ht
      exact ⟨ph', hc', by simp [hsound, sane_go ht rfl], .inr ⟨hne, Nat.lt_succ_self _⟩⟩
  | decStrong ht _ =>
      refine .same (hc.touch ht ?_ rfl rfl (hc.pending_of_pos (hc.pos_of_refs ht rfl)) id)
        (sane_go ht rfl)
      simp only [Pc.strongRefs]
      omega
  | decStrongLast ht _ =>
      refine .same (hc.touch ht ?_ rfl rfl (hc.pending_of_pos (hc.pos_of_refs ht rfl)) id)
        (sane_go ht rfl)
      simp only [Pc.strongRefs]
      omega
  | lastStrong ht => exact .same (hc.walk ht rfl rfl rfl) (sane_go ht rfl)
  | destructorNever ht _ => exact .same (hc.walk ht rfl rfl rfl) (sane_go ht rfl)
  | destructor ht _ => exact .same (hc.walk ht rfl rfl rfl) (sane_go ht rfl)
  | decWeak ht _ => exact .same (hc.walk ht rfl rfl rfl) (sane_go ht rfl)
  | decWeakLast ht _ => exact .same (hc.walk ht rfl rfl rfl) (sane_go ht rfl)
  | lastWeakNever ht _ => exact .same (hc.walk ht rfl rfl rfl) (sane_go ht rfl)
  | lastWeak ht _ => exact .same (hc.walk ht rfl rfl rfl) (sane_go ht rfl)
  | lastDestructorNever ht _ => exact .same (hc.walk ht rfl rfl rfl) (sane_go ht rfl)
  | lastDestructor ht _ => exact .same (hc.walk ht rfl rfl rfl) (sane_go ht rfl)
  | incWeak ht => exact .same (hc.walk ht rfl rfl rfl) (sane_go ht rfl)
  | attemptWeakRead ht _ => exact .same (hc.walk ht rfl rfl rfl) (sane_go ht rfl)
  | attemptWeakNone ht _ => exact .same (hc.walk ht rfl rfl rfl) (sane_go ht rfl)
  | attemptWeakSwap ht _ => exact .same (hc.walk ht rfl rfl rfl) (sane_go ht rfl)
  | attemptWeakAgain ht _ => exact .same (hc.walk ht rfl rfl rfl) (sane_go ht rfl)
  | attemptWeak ht => exact .same (hc.walk ht rfl rfl rfl) (sane_go ht rfl)
  | attemptRead ht _ => exact .same (hc.walk ht rfl rfl rfl) (sane_go ht rfl)
  | attemptNever ht _ _ => exact .same (hc.walk ht rfl rfl rfl) (sane_go ht rfl)
  | attemptNone ht _ => exact .same (hc.walk ht rfl rfl rfl) (sane_go ht rfl)
  | attemptSwap ht heq =>
      subst heq
      exact .same (hc.grab ht rfl rfl rfl rfl) (sane_go ht rfl)
  | attemptAgain ht _ => exact .same (hc.walk ht rfl rfl rfl) (sane_go ht rfl)
  | promoteSwap ht heq _ =>
      subst heq
      exact .same (hc.grab ht rfl rfl rfl rfl) (sane_go ht rfl)
  | promoteUnneeded ht heq _ =>
      subst heq
      exact .same (hc.grab ht rfl rfl rfl rfl) (sane_go ht rfl)
  | promoteAgain ht _ => exact .same (hc.walk ht rfl rfl rfl) (sane_go ht rfl)
  | promoteRead ht _ => exact .same (hc.walk ht rfl rfl rfl) (sane_go ht rfl)
  | promoteNone ht _ => exact .same (hc.walk ht rfl rfl rfl) (sane_go ht rfl)
  | unneeded ht => exact .same (hc.walk ht rfl rfl rfl) (sane_go ht rfl)
  | fixRead ht _ => exact .same (hc.walk ht rfl rfl rfl) (sane_go ht rfl)
  | fixNone ht hlt => exact .same (hc.finish ht hlt) (sane_go ht rfl)
  | @fixSwap t c h ht heq =>
      obtain ⟨rfl, ph', hc', hsound, hne⟩ := hc.fix hfew ht heq
      refine ⟨ph', hc', hsound.trans ?_, .inr ⟨hne, Nat.lt_succ_self _⟩⟩
      rw [hc.adds_eq_zero_iff]
      constructor
      · intro hno
        refine ⟨rfl, fun u c' h' ha hu _ => hno⟩
      · rintro ⟨-, hsane⟩
        exact hsane t c h rfl ht heq
  | @fixAgain t c h ht hne =>
      refine .same (hc.walk ht rfl rfl rfl) fun u c' h' ha hu heq => ?_
      obtain rfl := Action.go.inj ha
      rw [ht] at hu
      exact absurd (heq.trans (Pc.fixSwap.inj hu).symm) hne

/-- **`mWeak` is the number of references.** -/
structure WeakCounted (mWeak : Int) (strong weak : ℕ) (pc : Tid → Pc) : Prop where
  few : AlmostIdle .outside pc
  count : mWeak = strong + weak + tally Pc.weakRefs pc

theorem WeakCounted.move {mWeak mWeak' : Int} {strong strong' weak weak' : ℕ} {pc : Tid → Pc}
    (h : WeakCounted mWeak strong weak pc) {t : Tid} {p q : Pc} (ht : pc t = p)
    (hcount : mWeak' + p.weakRefs + strong + weak = mWeak + q.weakRefs + strong' + weak') :
    WeakCounted mWeak' strong' weak' (update pc t q) := by
  have htally := tally_update h.few (w := Pc.weakRefs) rfl t q
  rw [ht] at htally
  have hold := h.count
  exact ⟨h.few.update t q, by omega⟩

theorem weak_counted_step (h : Step s a s') (hw : WeakCounted s.mWeak s.strong s.weak s.pc) :
    WeakCounted s'.mWeak s'.strong s'.weak s'.pc := by
  cases h with
  | callFirst ht _ _ => exact hw.move ht rfl
  | callIncStrong ht _ => exact hw.move ht rfl
  | callDecStrong ht _ _ => exact hw.move ht (by simp only [Pc.weakRefs]; omega)
  | callIncWeak ht _ => exact hw.move ht rfl
  | callDecWeak ht _ _ => exact hw.move ht (by simp only [Pc.weakRefs]; omega)
  | callAttemptWeak ht _ => exact hw.move ht rfl
  | callAttemptStrong ht _ => exact hw.move ht rfl
  | incStrongWeak ht => exact hw.move ht (by simp only [Pc.weakRefs]; omega)
  | incStrong ht _ => exact hw.move ht (by simp only [Pc.weakRefs]; omega)
  | incStrongFirst ht _ => exact hw.move ht rfl
  | incStrongAdd ht => exact hw.move ht (by simp only [Pc.weakRefs]; omega)
  | decStrong ht _ => exact hw.move ht rfl
  | decStrongLast ht _ => exact hw.move ht rfl
  | lastStrong ht => exact hw.move ht rfl
  | destructorNever ht _ => exact hw.move ht rfl
  | destructor ht _ => exact hw.move ht rfl
  | decWeak ht _ => exact hw.move ht (by simp only [Pc.weakRefs]; omega)
  | decWeakLast ht _ => exact hw.move ht (by simp only [Pc.weakRefs]; omega)
  | lastWeakNever ht _ => exact hw.move ht rfl
  | lastWeak ht _ => exact hw.move ht rfl
  | lastDestructorNever ht _ => exact hw.move ht rfl
  | lastDestructor ht _ => exact hw.move ht rfl
  | incWeak ht => exact hw.move ht (by simp only [Pc.weakRefs]; omega)
  | attemptWeakRead ht _ => exact hw.move ht rfl
  | attemptWeakNone ht _ => exact hw.move ht rfl
  | attemptWeakSwap ht heq => exact hw.move ht (by simp only [Pc.weakRefs]; omega)
  | attemptWeakAgain ht _ => exact hw.move ht rfl
  | attemptWeak ht => exact hw.move ht (by simp only [Pc.weakRefs]; omega)
  | attemptRead ht _ => exact hw.move ht rfl
  | attemptNever ht _ _ => exact hw.move ht rfl
  | attemptNone ht _ => exact hw.move ht rfl
  | attemptSwap ht _ => exact hw.move ht rfl
  | attemptAgain ht _ => exact hw.move ht rfl
  | promoteSwap ht _ _ => exact hw.move ht rfl
  | promoteUnneeded ht _ _ => exact hw.move ht rfl
  | promoteAgain ht _ => exact hw.move ht rfl
  | promoteRead ht _ => exact hw.move ht rfl
  | promoteNone ht _ => exact hw.move ht rfl
  | unneeded ht => exact hw.move ht rfl
  | fixRead ht _ => exact hw.move ht rfl
  | fixNone ht _ => exact hw.move ht (by simp only [Pc.weakRefs]; omega)
  | fixSwap ht _ => exact hw.move ht (by simp only [Pc.weakRefs]; omega)
  | fixAgain ht _ => exact hw.move ht rfl

/-! ### Runs -/

omit [DecidableEq Tid] in
theorem tally_outside {w : Pc → ℕ} (hw : w .outside = 0) :
    tally w (fun _ : Tid => Pc.outside) = 0 :=
  (tally_eq_zero_iff (.const _) hw).2 fun _ => hw

theorem weak_counted_init (h : (machine Tid).init s) :
    WeakCounted s.mWeak s.strong s.weak s.pc := by
  obtain ⟨created, strong, weak, rfl⟩ := h
  have hnone := @tally_outside Tid Pc.weakRefs rfl
  refine ⟨.const _, ?_⟩
  simp only [start, hnone]
  omega

theorem weak_counted_invariant :
    (machine Tid).Invariant fun s => WeakCounted s.mWeak s.strong s.weak s.pc where
  init _ h := weak_counted_init h
  step _ _ _ hw hs := weak_counted_step hs hw

/-- The references can be read off `mWeak`. -/
theorem few_of_mWeak {s₀ : State Tid} {tr : List (State Tid × Action Tid)}
    (h₀ : (machine Tid).init s₀) (h : ((machine Tid).restrict Few).Run s₀ tr s)
    (hlt : s.mWeak < 2 ^ 28) : Few s a := by
  have hcount := ((weak_counted_invariant.restrict Few).reachable (h.reachable (.init h₀))).count
  unfold Few State.references
  omega

/-- A step makes one reference at most. -/
theorem mWeak_le (h : Step s a s') : s'.mWeak ≤ s.mWeak + 1 := by
  cases h <;> dsimp only <;> omega

/-- In a short run there are few references. -/
theorem few_of_length {s₀ : State Tid} {tr : List (State Tid × Action Tid)}
    (h₀ : (machine Tid).init s₀) (h : (machine Tid).Run s₀ tr s)
    (hlt : s₀.mWeak + tr.length ≤ 2 ^ 28) :
    ((machine Tid).restrict Few).Run s₀ tr s ∧ s.mWeak ≤ s₀.mWeak + tr.length := by
  induction h with
  | nil => exact ⟨.nil, by simp⟩
  | snoc _ hs ih =>
      rw [List.length_append, List.length_singleton] at hlt ⊢
      obtain ⟨hrun, hle⟩ := ih (by omega)
      have hle' := mWeak_le hs
      exact ⟨hrun.snoc ⟨hs, few_of_mWeak h₀ hrun (by omega)⟩, by omega⟩

omit [DecidableEq Tid] in
/-- A bound on the references bounds the strong ones. -/
theorem Counted.few_strong (h : Counted ph s.mStrong s.strong s.acquired s.pc) (hfew : Few s a) :
    strongReferences s.strong s.pc < 2 ^ 28 := by
  have hle := tally_mono h.few (w := Pc.weakRefs) rfl Pc.strongRefs_le
  unfold Few State.references at hfew
  unfold strongReferences
  omega

omit [DecidableEq Tid] in
/-- **The counters fit into 32 bits**, so integers model them. -/
theorem Counted.fits (h : Counted ph s.mStrong s.strong s.acquired s.pc)
    (hw : WeakCounted s.mWeak s.strong s.weak s.pc) (hfew : Few s a) :
    (-2 ^ 28 ≤ s.mStrong ∧ s.mStrong < 2 ^ 29) ∧ 0 ≤ s.mWeak ∧ s.mWeak < 2 ^ 28 := by
  have hstrong := h.few_strong hfew
  have hcount := h.count
  have hweak := hw.count
  unfold Few State.references at hfew
  refine ⟨?_, by omega, by omega⟩
  cases ph <;> simp only [Phase.bias, initialStrongValue] at hcount <;> omega

theorem counted_init (h : (machine Tid).init s) :
    ∃ ph, Counted ph s.mStrong s.strong s.acquired s.pc ∧ ph.isSound = true := by
  obtain ⟨created, strong, weak, rfl⟩ := h
  have hrefs : strongReferences strong (start created strong weak : State Tid).pc = strong := by
    have hnone := @tally_outside Tid Pc.strongRefs rfl
    simp only [strongReferences, start, hnone]
    omega
  have hadds := @tally_outside Tid Pc.adds rfl
  rcases Nat.eq_zero_or_pos strong with h0 | hpos
  · refine ⟨.fresh, ⟨.const _, ?_, hadds.trans_le (Nat.zero_le _), fun _ => .inl ⟨?_, ?_⟩,
      fun hne => absurd rfl hne⟩, rfl⟩
    · simp [start, h0, Phase.bias, strongReferences, tally_outside (w := Pc.strongRefs) rfl]
    · exact hrefs.trans h0
    · simp [start, h0]
  · refine ⟨.clean, ⟨.const _, ?_, hadds, fun hph => absurd hph (by simp), fun _ => ?_⟩, rfl⟩
    · simp only [start] at hrefs
      simp [start, Nat.pos_iff_ne_zero.1 hpos, Phase.bias, hrefs]
    · simpa [start] using hpos

theorem counted_invariant : ((machine Tid).restrict Few).Invariant
    fun s => ∃ ph, Counted ph s.mStrong s.strong s.acquired s.pc where
  init s h := by
    obtain ⟨ph, hc, -⟩ := counted_init h
    exact ⟨ph, hc⟩
  step s a s' hc hs := by
    obtain ⟨ph, hc⟩ := hc
    obtain ⟨ph', hc', -⟩ := counted_step hs.1 (hc.few_strong hs.2) hc
    exact ⟨ph', hc'⟩

/-- **The bias at the end of a run** is sound exactly if every step was sane. -/
theorem run_counted {s₀ : State Tid} {tr : List (State Tid × Action Tid)}
    (h₀ : (machine Tid).init s₀) (h : ((machine Tid).restrict Few).Run s₀ tr s) :
    ∃ ph, Counted ph s.mStrong s.strong s.acquired s.pc ∧
      (ph.isSound = true ↔ ∀ p ∈ tr, Sane p.1 p.2) := by
  induction h with
  | nil =>
      obtain ⟨ph, hc, hsound⟩ := counted_init h₀
      exact ⟨ph, hc, by simp [hsound]⟩
  | snoc _ hs ih =>
      obtain ⟨ph, hc, hsound⟩ := ih
      obtain ⟨ph', hc', hsound', -⟩ := counted_step hs.1 (hc.few_strong hs.2) hc
      refine ⟨ph', hc', ?_⟩
      rw [hsound', hsound]
      simp [or_imp, forall_and]

end

end RefCounts

open RefCounts

/-- **When `mStrong` counts the strong references.**  Whatever the threads have done to the object
with fewer than `2 ^ 28` references, when none of them is in a function `mStrong` is the number of
strong references, or `INITIAL_STRONG_VALUE` if there never was one, exactly if the last loop of
`attemptIncStrong` has never taken the value off while a call of `incStrong` would subtract it. -/
theorem mStrong_counts_iff {Tid : Type} [DecidableEq Tid] {s₀ s : State Tid}
    {tr : List (State Tid × Action Tid)} (h₀ : (machine Tid).init s₀)
    (h : ((machine Tid).restrict Few).Run s₀ tr s) (hquiet : ∀ t, s.pc t = .outside) :
    s.mStrong = (if s.acquired then (s.strong : Int) else RefCounts.initialStrongValue) ↔
      ∀ p ∈ tr, Sane p.1 p.2 := by
  obtain ⟨ph, hc, hsound⟩ := run_counted h₀ h
  rw [← hsound]
  have hpc : s.pc = fun _ => .outside := funext hquiet
  have hrefs : strongReferences s.strong s.pc = s.strong := by
    rw [hpc, strongReferences, tally_outside rfl, Nat.add_zero]
  have hcount := hc.count
  rw [hrefs] at hcount
  cases ph with
  | fresh =>
      have hnone := (hc.untouched rfl).resolve_right (by rw [hpc, tally_outside rfl]; omega)
      rw [hrefs] at hnone
      simp [hnone.2, hcount, hnone.1, Phase.bias, Phase.isSound]
  | clean => simp [hc.acquired, hcount, Phase.bias, Phase.isSound]
  | half =>
      have hone : tally Pc.adds s.pc = 1 := hc.adders
      rw [hpc, tally_outside rfl] at hone
      exact absurd hone (by simp)
  | broken =>
      simp [hc.acquired, hcount, Phase.bias, Phase.isSound, RefCounts.initialStrongValue]

/-- The creator makes the first strong reference, alone. -/
theorem mStrong_counts_iff_first : ∃ (tr : List (State (Fin 2) × Action (Fin 2)))
    (s : State (Fin 2)), ((machine (Fin 2)).restrict Few).Run (start false 0 1) tr s ∧
      s.strong = 1 ∧ s.mStrong = 1 := by
  have h₀ : (machine (Fin 2)).init (start false 0 1) := ⟨_, _, _, rfl⟩
  have h₁ := Machine.Run.nil.snoc (M := machine (Fin 2))
    (Step.callFirst (s := start false 0 1) (t := 0) rfl rfl rfl)
  have h₂ := h₁.snoc (Step.incStrongWeak (t := 0) rfl)
  have h₃ := h₂.snoc (Step.incStrongFirst (t := 0) rfl rfl)
  have h₄ := h₃.snoc (Step.incStrongAdd (t := 0) rfl)
  obtain ⟨hrun, -⟩ := few_of_length h₀ h₄ (by decide)
  have hiff := mStrong_counts_iff h₀ hrun (Fin.forall_fin_two.2 ⟨rfl, rfl⟩)
  refine ⟨_, _, hrun, rfl, (hiff.2 ?_).trans rfl⟩
  intro p hp
  simp only [List.nil_append, List.cons_append, List.mem_cons, List.not_mem_nil, or_false] at hp
  rcases hp with rfl | rfl | rfl | rfl
  · exact sane_call
  · exact sane_go rfl rfl
  · exact sane_go rfl rfl
  · exact sane_go rfl rfl

/-- **The value is taken off twice.**  Thread 0 makes the first strong reference, thread 1 promotes
a weak one in between; afterwards there are two strong references, and `mStrong` is negative. -/
theorem mStrong_is_negative : ∃ (tr : List (State (Fin 2) × Action (Fin 2)))
    (s : State (Fin 2)), ((machine (Fin 2)).restrict Few).Run (start false 0 1) tr s ∧
      (∀ p ∈ tr, 0 < p.1.weak) ∧ (∀ t, s.pc t = .outside) ∧ s.deleted = 0 ∧ s.acquired = true ∧
      s.strong = 2 ∧ s.mStrong = 2 - 2 ^ 28 := by
  have h₀ : (machine (Fin 2)).init (start false 0 1) := ⟨_, _, _, rfl⟩
  have h₁ := Machine.Run.nil.snoc (M := machine (Fin 2))
    (Step.callFirst (s := start false 0 1) (t := 0) rfl rfl rfl)
  have h₂ := h₁.snoc (Step.callAttemptStrong (t := 1) rfl (by decide))
  have h₃ := h₂.snoc (Step.incStrongWeak (t := 0) rfl)
  have h₄ := h₃.snoc (Step.attemptWeak (t := 1) rfl)
  have h₅ := h₄.snoc (Step.incStrongFirst (t := 0) rfl rfl)
  have h₆ := h₅.snoc (Step.attemptRead (t := 1) rfl (by decide))
  have h₇ := h₆.snoc (Step.attemptSwap (t := 1) rfl rfl)
  have h₈ := h₇.snoc (Step.fixRead (t := 1) rfl (by decide))
  have h₉ := h₈.snoc (Step.fixSwap (t := 1) rfl rfl)
  have h₁₀ := h₉.snoc (Step.incStrongAdd (t := 0) rfl)
  obtain ⟨hrun, -⟩ := few_of_length h₀ h₁₀ (by decide)
  refine ⟨_, _, hrun, ?_, Fin.forall_fin_two.2 ⟨rfl, rfl⟩, rfl, rfl, rfl, rfl⟩
  intro p hp
  simp only [List.nil_append, List.cons_append, List.mem_cons, List.not_mem_nil, or_false] at hp
  rcases hp with rfl | rfl | rfl | rfl | rfl | rfl | rfl | rfl | rfl | rfl <;> exact Nat.one_pos

end VModule
