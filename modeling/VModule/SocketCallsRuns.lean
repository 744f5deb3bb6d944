/-
**What the results of the calls on a socket tell.**

Whatever is called on the two ends and however the kernel answers, the bytes that the calls have
taken and those in the kernel are, in order, those that the calls have put.  A program has only the
results, and they are right until a call of `Readn` or `Writen` fails with bytes in its hand.

Main definitions:

* `VModule.Ends.Sound` — the invariant;
* `VModule.Ends.Honest` — each result is the number of bytes that the call has moved;
* `VModule.Ends.Spoiling` — a call fails with bytes in its hand.

Main results:

* `VModule.Ends.Sound.step` — a step keeps the invariant;
* `VModule.Ends.Sound.step_records` — what a step adds to the calls that have returned;
* `VModule.socket_calls_account` — **no byte is lost between the two ends**, and which errors make
  a result wrong.
-/

import VModule.SocketCalls

set_option relaxedAutoImplicit false
set_option autoImplicit false

namespace VModule

/-! ### The invariant -/

theorem Taken.Right.mono {p q : Prop} {d : Taken} (h : d.Right p) (hpq : p → q) : d.Right q where
  length_le := h.length_le
  result := by
    rcases h.result with ⟨hres, hn | hsome | hp⟩ | hfail
    · exact .inl ⟨hres, .inl hn⟩
    · exact .inl ⟨hres, .inr (.inl hsome)⟩
    · exact .inl ⟨hres, .inr (.inr (hpq hp))⟩
    · exact .inr hfail

namespace Ends

/-- The stream has ended, and everything that was in it has been taken. -/
structure Ended (s : Ends) : Prop where
  closed : s.closed = true
  pipe : s.pipe = []
  inHand : s.inHand = []

/-- **Nothing is lost, nothing comes twice and nothing changes places.** -/
structure Sound (s : Ends) : Prop where
  bytes : s.taken ++ s.inHand ++ s.pipe = s.given ++ s.inPut
  reader : ∀ t, s.reader = some t → t.Sound
  writer : ∀ g, s.writer = some g → g.Sound
  closed : s.closed = true → s.writer = none
  takes : ∀ d ∈ s.takes, d.Right s.Ended
  puts : ∀ d ∈ s.puts, d.Right

variable {cap : ℕ+} {s s' : Ends}

theorem sound_start : start.Sound where
  bytes := rfl
  reader t h := by cases h
  writer g h := by cases h
  closed _ := rfl
  takes d h := absurd h List.not_mem_nil
  puts d h := absurd h List.not_mem_nil

theorem inHand_of_some {t : Taking} (h : s.reader = some t) : s.inHand = t.got := by
  rw [inHand, h]
  rfl

theorem inHand_of_none (h : s.reader = none) : s.inHand = [] := by
  rw [inHand, h]
  rfl

theorem inPut_of_some {g : Giving} (h : s.writer = some g) : s.inPut = g.sent := by
  rw [inPut, h]
  rfl

theorem inPut_of_none (h : s.writer = none) : s.inPut = [] := by
  rw [inPut, h]
  rfl

/-- What `read` hands out is the beginning of what is there. -/
theorem ReadAllowed.pipe {m : ℕ} {a : ReadAnswer} (h : s.ReadAllowed m a) :
    a.taken ++ s.pipe.drop a.taken.length = s.pipe := by
  cases a with
  | bytes bs =>
      obtain ⟨rest, hrest⟩ := h.2.2.2
      rw [← hrest, ReadAnswer.taken, List.drop_left]
  | eof | eintr | error => rfl

/-- Behind the end nothing is handed out. -/
theorem Ended.taken {m : ℕ} {a : ReadAnswer} (he : s.Ended) (h : s.ReadAllowed m a) :
    a.taken = [] := by
  have hpipe := h.pipe
  rw [he.pipe] at hpipe
  exact (List.append_eq_nil_iff.1 hpipe).1

theorem Sound.open_of_writer (h : s.Sound) {g : Giving} (hg : s.writer = some g) :
    s.closed = false := by
  cases hc : s.closed with
  | false => rfl
  | true => cases hg.symm.trans (h.closed hc)

theorem not_ended_of_open (hc : s.closed = false) : ¬ s.Ended := by
  intro he
  cases hc.symm.trans he.closed

/-- A call on the reading end returns with what it has. -/
theorem Sound.takes_snoc (h : s.Sound) {d : Taken} {ended : Prop} (hd : d.Right ended)
    (hold : s.Ended → ended) : ∀ e ∈ s.takes ++ [d], e.Right ended := by
  intro e he
  rcases List.mem_append.1 he with he | he
  · exact (h.takes e he).mono hold
  · rw [List.mem_singleton.1 he]
    exact hd

theorem Sound.puts_snoc (h : s.Sound) {d : Given} (hd : d.Right) :
    ∀ e ∈ s.puts ++ [d], e.Right := by
  intro e he
  rcases List.mem_append.1 he with he | he
  · exact h.puts e he
  · rw [List.mem_singleton.1 he]
    exact hd

/-- A call on the writing end that has returned is of no concern to those on the reading end. -/
theorem Sound.takes_of_open (h : s.Sound) (hc : s.closed = false) (p : Prop) :
    ∀ d ∈ s.takes, d.Right p :=
  fun d hd => (h.takes d hd).mono fun he => absurd he (not_ended_of_open hc)

/-- **A step keeps the bytes.** -/
theorem Sound.step (h : s.Sound) {a : Action} (hs : Step cap s a s') : s'.Sound := by
  cases hs with
  | callRead hr =>
      refine ⟨?_, ?_, h.writer, h.closed, fun d hd => (h.takes d hd).mono ?_, h.puts⟩
      · have hb := h.bytes
        rw [inHand_of_none hr] at hb
        exact hb
      · intro t ht
        obtain rfl := Option.some.inj ht
        exact trivial
      · exact fun he => ⟨he.closed, he.pipe, rfl⟩
  | @callReadn n hr =>
      refine ⟨?_, ?_, h.writer, h.closed, fun d hd => (h.takes d hd).mono ?_, h.puts⟩
      · have hb := h.bytes
        rw [inHand_of_none hr] at hb
        exact hb
      · intro t ht
        obtain rfl := Option.some.inj ht
        exact ⟨Nat.zero_add n, .inl rfl⟩
      · exact fun he => ⟨he.closed, he.pipe, rfl⟩
  | @readOn t t' a hr _ ha hnext =>
      obtain ⟨hsound, hgot⟩ := Taking.keeps_next (h.reader t hr) ha hnext
      refine ⟨?_, ?_, h.writer, h.closed, fun d hd => (h.takes d hd).mono ?_, h.puts⟩
      · have hb := h.bytes
        rw [inHand_of_some hr, ← ha.pipe] at hb
        show s.taken ++ t'.got ++ s.pipe.drop a.taken.length = s.given ++ s.inPut
        rw [hgot, ← hb]
        simp only [List.append_assoc]
      · intro t'' ht
        obtain rfl := Option.some.inj ht
        exact hsound
      · intro he
        have hnil := he.inHand
        rw [inHand_of_some hr] at hnil
        refine ⟨he.closed, ?_, ?_⟩
        · show s.pipe.drop _ = []
          rw [he.pipe, List.drop_nil]
        · show t'.got = []
          rw [hgot, hnil, he.taken ha]
          rfl
  | @readReturns t a result bs hr _ ha hnext =>
      obtain ⟨hbs, hright⟩ := Taking.right_next (h.reader t hr) ha hnext
      refine ⟨?_, (fun t' ht' => by cases ht'), h.writer, h.closed,
        h.takes_snoc (hright.mono ?_) ?_, h.puts⟩
      · have hb := h.bytes
        rw [inHand_of_some hr, ← ha.pipe] at hb
        show (s.takes ++ [_]).flatMap Taken.bytes ++ [] ++ s.pipe.drop a.taken.length =
          s.given ++ s.inPut
        rw [← hb, List.flatMap_append, List.flatMap_singleton, hbs, taken]
        simp only [List.append_assoc, List.nil_append]
      · intro ⟨hpipe, hclosed⟩
        refine ⟨hclosed, ?_, rfl⟩
        show s.pipe.drop _ = []
        rw [hpipe, List.drop_nil]
      · intro he
        refine ⟨he.closed, ?_, rfl⟩
        show s.pipe.drop _ = []
        rw [he.pipe, List.drop_nil]
  | @returnReadn c hr hzero =>
      refine ⟨?_, (fun t' ht' => by cases ht'), h.writer, h.closed,
        h.takes_snoc (Taking.right_readn (h.reader _ hr) hzero)
          fun he => ⟨he.closed, he.pipe, rfl⟩, h.puts⟩
      have hb := h.bytes
      rw [inHand_of_some hr] at hb
      show (s.takes ++ [_]).flatMap Taken.bytes ++ [] ++ s.pipe = s.given ++ s.inPut
      rw [← hb, List.flatMap_append, List.flatMap_singleton, List.append_nil]
      rfl
  | callWrite hw hc =>
      refine ⟨?_, h.reader, ?_, (fun hclosed => by cases hc.symm.trans hclosed),
        h.takes_of_open hc _, h.puts⟩
      · have hb := h.bytes
        rw [inPut_of_none hw] at hb
        exact hb
      · intro g hg
        obtain rfl := Option.some.inj hg
        exact trivial
  | @callWriten data hw hc =>
      refine ⟨?_, h.reader, ?_, (fun hclosed => by cases hc.symm.trans hclosed),
        h.takes_of_open hc _, h.puts⟩
      · have hb := h.bytes
        have hsent : (Giving.writen (.enter data)).sent = [] := by
          simp [Giving.sent, Writen.enter]
        rw [inPut_of_none hw] at hb
        show _ = s.given ++ (Giving.writen (.enter data)).sent
        rw [hsent]
        exact hb
      · intro g hg
        obtain rfl := Option.some.inj hg
        exact ⟨Nat.le_refl _, .inl rfl⟩
  | @writeOn g g' a hw _ ha hnext =>
      have hc := h.open_of_writer hw
      obtain ⟨hsound, hsent⟩ := Giving.keeps_next (h.writer g hw) ha hnext
      refine ⟨?_, h.reader, ?_, (fun hclosed => by cases hc.symm.trans hclosed),
        h.takes_of_open hc _, h.puts⟩
      · have hb := h.bytes
        rw [inPut_of_some hw] at hb
        show s.taken ++ s.inHand ++ (s.pipe ++ g.rest.take a.put) = s.given ++ g'.sent
        rw [hsent, ← List.append_assoc, hb, List.append_assoc]
      · intro g'' hg
        obtain rfl := Option.some.inj hg
        exact hsound
  | @writeReturns g a result bs hw _ ha hnext =>
      have hc := h.open_of_writer hw
      obtain ⟨hbs, hright⟩ := Giving.right_next ha hnext
      refine ⟨?_, h.reader, (fun g' hg' => by cases hg'), fun _ => rfl, h.takes_of_open hc _,
        h.puts_snoc hright⟩
      have hb := h.bytes
      rw [inPut_of_some hw] at hb
      show s.taken ++ s.inHand ++ (s.pipe ++ g.rest.take a.put) =
        (s.puts ++ [_]).flatMap Given.bytes ++ []
      rw [List.flatMap_append, List.flatMap_singleton, List.append_nil, hbs, ← List.append_assoc,
        hb, List.append_assoc]
      rfl
  | @returnWriten c hw hzero =>
      have hc := h.open_of_writer hw
      refine ⟨?_, h.reader, (fun g' hg' => by cases hg'), fun _ => rfl, h.takes_of_open hc _,
        h.puts_snoc (Giving.right_writen (h.writer _ hw) hzero)⟩
      have hb := h.bytes
      rw [inPut_of_some hw] at hb
      show s.taken ++ s.inHand ++ s.pipe = (s.puts ++ [_]).flatMap Given.bytes ++ []
      rw [List.flatMap_append, List.flatMap_singleton, List.append_nil]
      exact hb
  | close hw hc =>
      exact ⟨h.bytes, h.reader, h.writer, fun _ => hw, h.takes_of_open hc _, h.puts⟩

/-- **The invariant holds however the two ends are used.** -/
theorem invariant_sound (cap : ℕ+) : (socketEnds cap).Invariant Sound where
  init s := by
    rintro rfl
    exact sound_start
  step s a s' h hs := h.step hs

/-! ### Results -/

/-- Each call that has returned returned the number of bytes that it has moved, or -1 and has moved
nothing. -/
structure Honest (s : Ends) : Prop where
  takes : ∀ d ∈ s.takes, d.result.toNat = d.bytes.length
  puts : ∀ d ∈ s.puts, d.result.toNat = d.bytes.length

/-- A call fails with bytes in its hand. -/
def Spoiling (s : Ends) : Action → Prop
  | .read .error => s.inHand ≠ []
  | .write .error => s.inPut ≠ []
  | .write .zero => s.inPut ≠ []
  | _ => False

theorem honest_of_calls (ht : s'.takes = s.takes) (hp : s'.puts = s.puts) :
    s'.Honest ↔ s.Honest := by
  constructor
  · intro h
    exact ⟨ht ▸ h.takes, hp ▸ h.puts⟩
  · intro h
    exact ⟨ht.symm ▸ h.takes, hp.symm ▸ h.puts⟩

theorem honest_of_take {d : Taken} (ht : s'.takes = s.takes ++ [d]) (hp : s'.puts = s.puts) :
    s'.Honest ↔ s.Honest ∧ d.result.toNat = d.bytes.length := by
  constructor
  · intro h
    have htakes := h.takes
    rw [ht, List.forall_mem_append, List.forall_mem_singleton] at htakes
    exact ⟨⟨htakes.1, hp ▸ h.puts⟩, htakes.2⟩
  · intro ⟨h, hd⟩
    refine ⟨?_, hp.symm ▸ h.puts⟩
    rw [ht, List.forall_mem_append, List.forall_mem_singleton]
    exact ⟨h.takes, hd⟩

theorem honest_of_put {d : Given} (ht : s'.takes = s.takes) (hp : s'.puts = s.puts ++ [d]) :
    s'.Honest ↔ s.Honest ∧ d.result.toNat = d.bytes.length := by
  constructor
  · intro h
    have hputs := h.puts
    rw [hp, List.forall_mem_append, List.forall_mem_singleton] at hputs
    exact ⟨⟨ht ▸ h.takes, hputs.1⟩, hputs.2⟩
  · intro ⟨h, hd⟩
    refine ⟨ht.symm ▸ h.takes, ?_⟩
    rw [hp, List.forall_mem_append, List.forall_mem_singleton]
    exact ⟨h.puts, hd⟩

/-- A result that is not -1 is the number of bytes. -/
theorem toNat_result {result : Int} {bs : List UInt8} (h : result = bs.length) :
    result.toNat = bs.length := by
  rw [h, Int.toNat_natCast]

/-- The result of a call on the reading end is right unless the call fails with bytes in hand. -/
theorem take_honest_iff {t : Taking} {a : ReadAnswer} {result : Int} {bs : List UInt8}
    (h : t.Sound) (hr : s.reader = some t) (hnext : t.next a = .inr (result, bs)) :
    result.toNat = bs.length ↔ ¬ s.Spoiling (.read a) := by
  cases t with
  | read nbytes =>
      have hnil := inHand_of_some hr
      cases a with
      | bytes | eof =>
          cases hnext
          exact iff_of_true rfl id
      | error =>
          cases hnext
          exact iff_of_true rfl fun hne => hne hnil
      | eintr => cases hnext
  | readn c =>
      cases a with
      | eof =>
          cases hnext
          exact iff_of_true (toNat_result (Readn.result_eq h)) id
      | error =>
          cases hnext
          have hgot := inHand_of_some hr
          rw [Spoiling, hgot, not_not, eq_comm]
          exact List.length_eq_zero_iff
      | bytes | eintr => cases hnext

/-- The result of a call on the writing end is right unless the call fails with bytes put. -/
theorem put_honest_iff {g : Giving} {a : WriteAnswer} {result : Int} {bs : List UInt8}
    (ha : s.WriteAllowed cap g.size a) (hw : s.writer = some g)
    (hnext : g.next a = .inr (result, bs)) :
    result.toNat = bs.length ↔ ¬ s.Spoiling (.write a) := by
  have hsent := inPut_of_some hw
  cases g with
  | write data =>
      cases a with
      | count k =>
          cases hnext
          exact iff_of_true (List.length_take_of_le ha.2.1).symm id
      | zero | error =>
          cases hnext
          exact iff_of_true rfl fun hne => hne hsent
      | eintr => cases hnext
  | writen c =>
      cases a with
      | zero | error =>
          cases hnext
          rw [Spoiling, hsent, not_not, eq_comm]
          exact List.length_eq_zero_iff
      | count | eintr => cases hnext

/-- What a step adds to the calls that have returned. -/
theorem Sound.step_records (h : s.Sound) {a : Action} (hs : Step cap s a s') :
    (s'.takes = s.takes ∧ s'.puts = s.puts ∧ ¬ s.Spoiling a) ∨
      (∃ d : Taken, s'.takes = s.takes ++ [d] ∧ s'.puts = s.puts ∧
        (d.result.toNat = d.bytes.length ↔ ¬ s.Spoiling a)) ∨
      ∃ d : Given, s'.takes = s.takes ∧ s'.puts = s.puts ++ [d] ∧
        (d.result.toNat = d.bytes.length ↔ ¬ s.Spoiling a) := by
  cases hs with
  | callRead | callReadn | callWrite | callWriten | close => exact .inl ⟨rfl, rfl, id⟩
  | @readOn t t' a hr _ _ hnext =>
      refine .inl ⟨rfl, rfl, ?_⟩
      cases a with
      | error => cases t <;> cases hnext
      | bytes | eof | eintr => exact id
  | @readReturns t a result bs hr _ _ hnext =>
      exact .inr (.inl ⟨_, rfl, rfl, take_honest_iff (h.reader t hr) hr hnext⟩)
  | @returnReadn c hr hzero =>
      have hres := Readn.result_eq (h.reader _ hr)
      exact .inr (.inl ⟨_, rfl, rfl, iff_of_true (toNat_result hres) id⟩)
  | @writeOn g g' a hw _ _ hnext =>
      refine .inl ⟨rfl, rfl, ?_⟩
      cases a with
      | zero | error => cases g <;> cases hnext
      | count | eintr => exact id
  | @writeReturns g a result bs hw _ ha hnext =>
      exact .inr (.inr ⟨_, rfl, rfl, put_honest_iff ha hw hnext⟩)
  | @returnWriten c hw hzero =>
      have hres := Writen.result_eq (h.writer _ hw) hzero
      rw [← Giving.sent_of_zero hzero] at hres
      exact .inr (.inr ⟨_, rfl, rfl, iff_of_true (toNat_result hres) id⟩)

/-- **A step keeps the results right unless a call fails with bytes in its hand.** -/
theorem Sound.honest_step_iff (h : s.Sound) {a : Action} (hs : Step cap s a s') :
    s'.Honest ↔ s.Honest ∧ ¬ s.Spoiling a := by
  obtain ⟨ht, hp, hgood⟩ | ⟨d, ht, hp, hd⟩ | ⟨d, ht, hp, hd⟩ := h.step_records hs
  · rw [honest_of_calls ht hp, and_iff_left hgood]
  · rw [honest_of_take ht hp, hd]
  · rw [honest_of_put ht hp, hd]

end Ends

/-- **No byte is lost between the two ends of a socket.**  Whatever calls are made on them and
however the kernel answers, what the calls on the reading end have taken and what is in the kernel
is, in order, what the calls on the writing end have put.  A call that does not return -1 returns
the number of bytes that it has moved, and `Read` and `Write` have moved nothing when they return
-1.  So the results tell the program what has been moved, in a whole run, if and only if no call of
`Readn` or `Writen` fails when it has moved some bytes. -/
theorem socket_calls_account (cap : ℕ+) :
    (∀ s, (socketEnds cap).Reachable s →
      s.taken ++ s.inHand ++ s.pipe = s.given ++ s.inPut ∧
      (∀ d ∈ s.takes, d.Right (s.closed = true ∧ s.taken = s.given)) ∧
      ∀ d ∈ s.puts, d.Right) ∧
    ∀ tr s, (socketEnds cap).Run .start tr s →
      ((∀ q ∈ Machine.visited tr s, q.Honest) ↔ ∀ p ∈ tr, ¬ p.1.Spoiling p.2) := by
  refine ⟨fun s hs => ?_, fun tr s hrun => ?_⟩
  · have h := (Ends.invariant_sound cap).reachable hs
    refine ⟨h.bytes, fun d hd => (h.takes d hd).mono fun he => ⟨he.closed, ?_⟩, h.puts⟩
    have hb := h.bytes
    rw [he.inHand, he.pipe, Ends.inPut_of_none (h.closed he.closed)] at hb
    simpa only [List.append_nil] using hb
  · refine hrun.forall_visited_iff (C := fun s a => ¬ s.Spoiling a) ?_ ?_ rfl
    · intro q hq
      have hinv := ((Ends.invariant_sound cap).restrict fun s a => ¬ s.Spoiling a).relative
        (I := Ends.Honest) ?_ ?_
      · exact (hinv.reachable hq).2
      · rintro q rfl
        exact ⟨fun d hd => absurd hd List.not_mem_nil, fun d hd => absurd hd List.not_mem_nil⟩
      · intro q a q' hsound hhonest hs
        exact (hsound.honest_step_iff hs.1).2 ⟨hhonest, hs.2⟩
    · intro q a q' hq hs hbad hhonest
      have hsound := (Ends.invariant_sound cap).reachable hq
      exact hbad ((hsound.honest_step_iff hs).1 hhonest).2

end VModule
