/-
**What arrives on a byte stream is what was sent.**

At every moment the bytes given to the calls of `Writen` are, in order: those that calls of `Readn`
delivered, those that a call in progress has, those in the kernel, and those not yet written.  Every
step keeps that.

Main definitions:

* `VModule.Stream.Conserved` — the invariant;
* `VModule.Stream.transfer` — one call on either end, and no other.

Main results:

* `VModule.Stream.Conserved.step` — a step keeps the invariant;
* `VModule.Stream.transfer_progress` — a transfer that is not over can go on;
* `VModule.byteStream_delivers` — a transfer ends, both calls return the length and the bytes are
  the same; and in any use of the stream what is delivered is the beginning of what was given, and
  only the end of the stream makes a read short.
-/

import VModule.SocketStream

set_option relaxedAutoImplicit false
set_option autoImplicit false

namespace VModule

namespace Writen

/-- After `k` more bytes the rest is `k` bytes shorter. -/
theorem rest_advance {w : Writen} {k : ℕ} (hk : k ≤ w.nleft) (hw : w.nleft ≤ w.data.length) :
    ({ w with nleft := w.nleft - k } : Writen).rest = w.rest.drop k := by
  have hsum : w.data.length - (w.nleft - k) = w.data.length - w.nleft + k := by omega
  simp only [rest, hsum, List.drop_drop]

theorem rest_enter (data : List UInt8) : (enter data).rest = data := by
  simp [rest, enter]

theorem rest_of_zero {w : Writen} (h : w.nleft = 0) : w.rest = [] := by
  simp [rest, h]

theorem length_rest {w : Writen} (hw : w.nleft ≤ w.data.length) : w.rest.length = w.nleft := by
  simp only [rest, List.length_drop]
  omega

end Writen

namespace Stream

/-! ### The invariant -/

/-- What the call of `Readn` in progress has. -/
def inHand (s : Stream) : List UInt8 := (s.reader.map Readn.got).getD []

/-- What the call of `Writen` in progress has not written. -/
def unwritten (s : Stream) : List UInt8 := (s.writer.map Writen.rest).getD []

/-- The stream has ended, and everything that was in it has been read. -/
structure Ended (s : Stream) : Prop where
  closed : s.closed = true
  pipe : s.pipe = []
  inHand : s.inHand = []

/-- **Nothing is lost, nothing comes twice and nothing changes places.** -/
structure Conserved (s : Stream) : Prop where
  bytes : s.delivered ++ s.inHand ++ s.pipe ++ s.unwritten = s.given
  reader : ∀ r, s.reader = some r → r.got.length + r.nleft = r.n
  writer : ∀ w, s.writer = some w → w.nleft ≤ w.data.length
  closed : s.closed = true → s.writer = none
  readns : ∀ d ∈ s.readns, d.result = toSsize d.bytes.length ∧ (d.bytes.length = d.n ∨ s.Ended)
  writens : ∀ d ∈ s.writens, d.result = toSsize d.data.length

theorem conserved_start : Conserved start where
  bytes := rfl
  reader r h := by simp [start] at h
  writer w h := by simp [start] at h
  closed _ := rfl
  readns d h := by simp [start] at h
  writens d h := by simp [start] at h

/-- When the stream has ended all that was given has been delivered. -/
theorem Conserved.delivered_of_ended {s : Stream} (h : s.Conserved) (he : s.Ended) :
    s.delivered = s.given := by
  have hb := h.bytes
  have hu : s.unwritten = [] := by simp [unwritten, h.closed he.closed]
  simpa [he.pipe, he.inHand, hu] using hb

variable {cap : ℕ+} {s s' : Stream}

theorem inHand_of_some {r : Readn} (h : s.reader = some r) : s.inHand = r.got := by
  simp [inHand, h]

theorem inHand_of_none (h : s.reader = none) : s.inHand = [] := by
  simp [inHand, h]

theorem unwritten_of_some {w : Writen} (h : s.writer = some w) : s.unwritten = w.rest := by
  simp [unwritten, h]

theorem unwritten_of_none (h : s.writer = none) : s.unwritten = [] := by
  simp [unwritten, h]

/-- While the writing end is used the stream has not ended. -/
theorem Conserved.length_of_open (h : s.Conserved) (hc : s.closed = false) :
    ∀ d ∈ s.readns, d.result = toSsize d.bytes.length ∧ d.bytes.length = d.n := by
  intro d hd
  obtain ⟨hres, hlen | hend⟩ := h.readns d hd
  · exact ⟨hres, hlen⟩
  · exact absurd hend.closed (by simp [hc])

theorem Conserved.open_of_writer (h : s.Conserved) {w : Writen} (hw : s.writer = some w) :
    s.closed = false := by
  cases hc : s.closed with
  | false => rfl
  | true => simp [h.closed hc] at hw

/-- A call of `Readn` returns: what it had is delivered now. -/
theorem Conserved.finishRead (h : s.Conserved) {r : Readn} (hr : s.reader = some r)
    (hend : r.nleft = 0 ∨ s.closed = true ∧ s.pipe = []) :
    Conserved { s with
      reader := none, readns := s.readns ++ [⟨r.n, r.got, toSsize (r.n - r.nleft)⟩] } := by
  have hlen := h.reader r hr
  refine ⟨?_, fun r' hr' => by simp at hr', h.writer, h.closed, ?_, h.writens⟩
  · have hb := h.bytes
    rw [inHand_of_some hr] at hb
    simpa [delivered, inHand, unwritten] using hb
  · intro d hd
    rcases List.mem_append.1 hd with hd | hd
    · obtain ⟨hres, hl | he⟩ := h.readns d hd
      · exact ⟨hres, .inl hl⟩
      · exact ⟨hres, .inr ⟨he.closed, he.pipe, rfl⟩⟩
    · obtain rfl := List.mem_singleton.1 hd
      refine ⟨?_, ?_⟩
      · show toSsize (r.n - r.nleft) = toSsize r.got.length
        rw [← hlen, Nat.add_sub_cancel]
      · rcases hend with hzero | ⟨hc, hp⟩
        · left
          show r.got.length = r.n
          omega
        · exact .inr ⟨hc, hp, rfl⟩

/-- **A step keeps the bytes.** -/
theorem Conserved.step (h : s.Conserved) {a : Action} (hs : Step cap s a s') : s'.Conserved := by
  cases hs with
  | @callWriten data hw hc =>
      refine ⟨?_, h.reader, ?_, fun hcl => ?_, fun d hd => ?_, h.writens⟩
      · have hb := h.bytes
        rw [unwritten_of_none hw, List.append_nil] at hb
        show s.delivered ++ s.inHand ++ s.pipe ++ (Writen.enter data).rest = s.given ++ data
        rw [Writen.rest_enter, hb]
      · intro w hw'
        obtain rfl := Option.some.inj hw'
        exact Nat.le_refl _
      · simp [hc] at hcl
      · obtain ⟨hres, hlen⟩ := h.length_of_open hc d hd
        exact ⟨hres, .inl hlen⟩
  | @write w w' k hw hk hle hcap hnext =>
      obtain rfl := Sum.inl.inj hnext
      have hc := h.open_of_writer hw
      refine ⟨?_, h.reader, ?_, fun hcl => ?_, fun d hd => ?_, h.writens⟩
      · have hb := h.bytes
        rw [unwritten_of_some hw] at hb
        show s.delivered ++ s.inHand ++ (s.pipe ++ w.rest.take k) ++
          ({ w with nleft := w.nleft - k } : Writen).rest = s.given
        rw [Writen.rest_advance hle (h.writer w hw), ← hb]
        simp only [List.append_assoc, List.take_append_drop]
      · intro w' hw'
        obtain rfl := Option.some.inj hw'
        exact Nat.le_trans (Nat.sub_le ..) (h.writer w hw)
      · simp [hc] at hcl
      · obtain ⟨hres, hlen⟩ := h.length_of_open hc d hd
        exact ⟨hres, .inl hlen⟩
  | @writeEintr w w' hw hpos hnext =>
      obtain rfl := Sum.inl.inj hnext
      rwa [show ({ s with writer := some w } : Stream) = s by rw [← hw]]
  | @returnWriten w hw hzero =>
      have hc := h.open_of_writer hw
      refine ⟨?_, h.reader, fun w' hw' => by simp at hw', fun _ => rfl, fun d hd => ?_,
        fun d hd => ?_⟩
      · have hb := h.bytes
        rw [unwritten_of_some hw, Writen.rest_of_zero hzero] at hb
        exact hb
      · obtain ⟨hres, hlen⟩ := h.length_of_open hc d hd
        exact ⟨hres, .inl hlen⟩
      · rcases List.mem_append.1 hd with hd | hd
        · exact h.writens d hd
        · obtain rfl := List.mem_singleton.1 hd
          rfl
  | @close hw hc =>
      refine ⟨h.bytes, h.reader, h.writer, fun _ => hw, fun d hd => ?_, h.writens⟩
      obtain ⟨hres, hlen⟩ := h.length_of_open hc d hd
      exact ⟨hres, .inl hlen⟩
  | @callReadn n hr =>
      refine ⟨?_, ?_, h.writer, h.closed, fun d hd => ?_, h.writens⟩
      · have hb := h.bytes
        rw [inHand_of_none hr] at hb
        exact hb
      · intro r hr'
        obtain rfl := Option.some.inj hr'
        exact Nat.zero_add n
      · obtain ⟨hres, hlen | he⟩ := h.readns d hd
        · exact ⟨hres, .inl hlen⟩
        · exact ⟨hres, .inr ⟨he.closed, he.pipe, rfl⟩⟩
  | @read r r' k hr hk hle hlen hnext =>
      obtain rfl := Sum.inl.inj hnext
      refine ⟨?_, ?_, h.writer, h.closed, fun d hd => ?_, h.writens⟩
      · have hb := h.bytes
        rw [inHand_of_some hr] at hb
        show s.delivered ++ (r.got ++ s.pipe.take k) ++ s.pipe.drop k ++ s.unwritten = s.given
        rw [← hb]
        simp only [List.append_assoc]
        rw [← List.append_assoc (s.pipe.take k), List.take_append_drop]
      · intro r' hr'
        obtain rfl := Option.some.inj hr'
        have hsum := h.reader r hr
        simp only [List.length_append, List.length_take]
        omega
      · obtain ⟨hres, hl | he⟩ := h.readns d hd
        · exact ⟨hres, .inl hl⟩
        · simp [he.pipe] at hlen
          omega
  | @readEintr r r' hr hpos hnext =>
      obtain rfl := Sum.inl.inj hnext
      rwa [show ({ s with reader := some r } : Stream) = s by rw [← hr]]
  | @readEof r result hr hpos hpipe hclosed hnext =>
      obtain rfl := Sum.inr.inj hnext
      exact h.finishRead hr (.inr ⟨hclosed, hpipe⟩)
  | @returnReadn r hr hzero => exact h.finishRead hr (.inl hzero)

/-- **The invariant holds in any use of the stream.** -/
theorem invariant_conserved (cap : ℕ+) : (byteStream cap).Invariant Conserved where
  init s := by
    rintro rfl
    exact conserved_start
  step s a s' h hs := h.step hs

/-! ### One call on either end -/

/-- `Writen` has been called with `p` on one end, and `Readn` for as many bytes on the other. -/
def transfer (p : List UInt8) : Stream :=
  { start with writer := some (.enter p), reader := some (.enter p.length), given := p }

/-- The stream on which the calls are made. -/
theorem reachable_transfer (cap : ℕ+) (p : List UInt8) :
    (byteStream cap).Reachable (transfer p) := by
  have h₀ : (byteStream cap).Reachable start := .init rfl
  have h₁ : (byteStream cap).Reachable { start with writer := some (.enter p), given := p } :=
    h₀.step (Step.callWriten rfl rfl)
  exact h₁.step (Step.callReadn (n := p.length) rfl)

namespace Action

/-- A further call. -/
def isCall : Action → Bool
  | callWriten _ | callReadn _ => true
  | _ => false

/-- The kernel interrupts a call. -/
def isEintr : Action → Bool
  | writeEintr | readEintr => true
  | _ => false

end Action

/-- Both calls have returned. -/
def Finished (s : Stream) : Prop := s.writer = none ∧ s.reader = none

/-- Where a transfer of `p` is: each call is in progress, or has returned. -/
structure Transferring (p : List UInt8) (s : Stream) : Prop where
  given : s.given = p
  writer : (∃ w, s.writer = some w ∧ w.data = p ∧ s.writens = []) ∨
    s.writer = none ∧ ∃ d, s.writens = [d] ∧ d.data = p
  reader : (∃ r, s.reader = some r ∧ r.n = p.length ∧ s.readns = []) ∨
    s.reader = none ∧ ∃ d, s.readns = [d] ∧ d.n = p.length

theorem Transferring.step {p : List UInt8} (h : Transferring p s) {a : Action}
    (hs : Step cap s a s') (ha : a.isCall = false) : Transferring p s' := by
  obtain ⟨hgiven, hwriter, hreader⟩ := h
  have hreading : ∀ r, s.reader = some r → r.n = p.length ∧ s.readns = [] := by
    intro r hr
    obtain ⟨r', hr', hn, hnil⟩ | ⟨hnone, _⟩ := hreader
    · obtain rfl := Option.some.inj (hr.symm.trans hr')
      exact ⟨hn, hnil⟩
    · simp [hr] at hnone
  have hwriting : ∀ w, s.writer = some w → w.data = p ∧ s.writens = [] := by
    intro w hw
    obtain ⟨w', hw', hd, hnil⟩ | ⟨hnone, _⟩ := hwriter
    · obtain rfl := Option.some.inj (hw.symm.trans hw')
      exact ⟨hd, hnil⟩
    · simp [hw] at hnone
  cases hs with
  | callWriten => simp [Action.isCall] at ha
  | callReadn => simp [Action.isCall] at ha
  | @write w w' k hw _ _ _ hnext =>
      obtain rfl := Sum.inl.inj hnext
      exact ⟨hgiven, .inl ⟨_, rfl, hwriting w hw⟩, hreader⟩
  | @writeEintr w w' hw _ hnext =>
      obtain rfl := Sum.inl.inj hnext
      exact ⟨hgiven, .inl ⟨_, rfl, hwriting w hw⟩, hreader⟩
  | @returnWriten w hw _ =>
      obtain ⟨hd, hnil⟩ := hwriting w hw
      exact ⟨hgiven, .inr ⟨rfl, ⟨w.data, w.result⟩, by simp [hnil], hd⟩, hreader⟩
  | close hw _ => exact ⟨hgiven, hwriter, hreader⟩
  | @read r r' k hr _ _ _ hnext =>
      obtain rfl := Sum.inl.inj hnext
      exact ⟨hgiven, hwriter, .inl ⟨_, rfl, hreading r hr⟩⟩
  | @readEintr r r' hr _ hnext =>
      obtain rfl := Sum.inl.inj hnext
      exact ⟨hgiven, hwriter, .inl ⟨_, rfl, hreading r hr⟩⟩
  | @readEof r result hr _ _ _ _ =>
      obtain ⟨hn, hnil⟩ := hreading r hr
      exact ⟨hgiven, hwriter, .inr ⟨rfl, ⟨r.n, r.got, result⟩, by simp [hnil], hn⟩⟩
  | @returnReadn r hr _ =>
      obtain ⟨hn, hnil⟩ := hreading r hr
      exact ⟨hgiven, hwriter, .inr ⟨rfl, ⟨r.n, r.got, r.result⟩, by simp [hnil], hn⟩⟩

/-- A run without further calls is a transfer throughout. -/
theorem transferring_run {p : List UInt8} {tr : List (Stream × Action)}
    (h : ((byteStream cap).restrict fun _ a => a.isCall = false).Run (transfer p) tr s) :
    Transferring p s := by
  induction h with
  | nil => exact ⟨rfl, .inl ⟨_, rfl, rfl, rfl⟩, .inl ⟨_, rfl, rfl, rfl⟩⟩
  | snoc _ hs ih => exact ih.step hs.1 hs.2

/-- What a transfer has to do still. -/
def work (s : Stream) : ℕ :=
  ((s.writer.map fun w => w.nleft + 1).getD 0) + ((s.reader.map fun r => r.nleft + 1).getD 0) +
    if s.closed then 0 else 1

/-- **Every step but an interrupt gets on with the work.** -/
theorem work_step {a : Action} (hs : Step cap s a s') (ha : a.isCall = false) :
    work s' + (if a.isEintr then 0 else 1) ≤ work s := by
  cases hs with
  | callWriten => simp [Action.isCall] at ha
  | callReadn => simp [Action.isCall] at ha
  | @write w w' k hw hk hle _ hnext =>
      obtain rfl := Sum.inl.inj hnext
      simp only [work, hw, Option.map_some, Option.getD_some, Action.isEintr, Bool.false_eq_true,
        if_false]
      omega
  | @writeEintr w w' hw _ hnext =>
      obtain rfl := Sum.inl.inj hnext
      simp only [work, hw, Action.isEintr, if_true]
      omega
  | returnWriten hw _ =>
      simp only [work, hw, Option.map_some, Option.map_none, Option.getD_some, Option.getD_none,
        Action.isEintr, Bool.false_eq_true, if_false]
      omega
  | close hw hc =>
      simp only [work, hc, Action.isEintr, Bool.false_eq_true, if_false, if_true]
      omega
  | @read r r' k hr hk hle hlen hnext =>
      obtain rfl := Sum.inl.inj hnext
      have htake : (s.pipe.take k).length = k := List.length_take_of_le hlen
      simp only [work, hr, htake, Option.map_some, Option.getD_some, Action.isEintr,
        Bool.false_eq_true, if_false]
      omega
  | @readEintr r r' hr _ hnext =>
      obtain rfl := Sum.inl.inj hnext
      simp only [work, hr, Action.isEintr, if_true]
      omega
  | readEof hr _ _ _ _ =>
      simp only [work, hr, Option.map_some, Option.map_none, Option.getD_some, Option.getD_none,
        Action.isEintr, Bool.false_eq_true, if_false]
      omega
  | returnReadn hr _ =>
      simp only [work, hr, Option.map_some, Option.map_none, Option.getD_some, Option.getD_none,
        Action.isEintr, Bool.false_eq_true, if_false]
      omega

/-- A reader of a transfer still lacks what is in the kernel and what is not yet written. -/
theorem Transferring.nleft {p : List UInt8} (h : Transferring p s) (hc : s.Conserved) {r : Readn}
    (hr : s.reader = some r) : r.nleft = s.pipe.length + s.unwritten.length := by
  obtain ⟨r', hr', hn, hnil⟩ | ⟨hnone, _⟩ := h.reader
  · obtain rfl := Option.some.inj (hr.symm.trans hr')
    have hb := congrArg List.length hc.bytes
    have hlen := hc.reader r hr
    simp only [delivered, hnil, inHand_of_some hr, List.flatMap_nil, List.length_append,
      List.length_nil, h.given] at hb
    omega
  · simp [hr] at hnone

/-- When the reader has returned it has everything. -/
theorem Transferring.arrived {p : List UInt8} (h : Transferring p s) (hc : s.Conserved)
    (hr : s.reader = none) :
    s.readns = [⟨p.length, p, toSsize p.length⟩] ∧ s.unwritten = [] := by
  obtain ⟨r, hr', _⟩ | ⟨_, d, hd, hn⟩ := h.reader
  · simp [hr] at hr'
  · obtain ⟨hres, hfull⟩ := hc.readns d (by simp [hd])
    have hb := hc.bytes
    rw [inHand_of_none hr, List.append_nil, h.given, delivered, hd, List.flatMap_singleton] at hb
    have hnil : s.pipe = [] ∧ s.unwritten = [] := by
      rcases hfull with hlen | hend
      · have hsum := congrArg List.length hb
        simp only [List.length_append] at hsum
        exact ⟨List.length_eq_zero_iff.1 (by omega), List.length_eq_zero_iff.1 (by omega)⟩
      · exact ⟨hend.pipe, unwritten_of_none (hc.closed hend.closed)⟩
    rw [hnil.1, hnil.2, List.append_nil, List.append_nil] at hb
    refine ⟨?_, hnil.2⟩
    obtain ⟨n, bytes, result⟩ := d
    obtain rfl : bytes = p := hb
    obtain rfl : n = bytes.length := hn
    obtain rfl : result = toSsize bytes.length := hres
    exact hd

/-- **A transfer that is not over can go on**, whatever the capacity. -/
theorem transfer_progress (cap : ℕ+) {p : List UInt8} (h : Transferring p s) (hc : s.Conserved)
    (hf : ¬ s.Finished) :
    ∃ a s', Step cap s a s' ∧ a.isCall = false ∧ a.isEintr = false := by
  -- the reader can take a byte as soon as there is one
  have hread : ∀ r, s.reader = some r → 0 < s.pipe.length →
      ∃ a s', Step cap s a s' ∧ a.isCall = false ∧ a.isEintr = false := by
    intro r hr hpos
    have hleft := h.nleft hc hr
    exact ⟨.read 1, _, .read hr Nat.one_pos (by omega) (by omega) rfl, rfl, rfl⟩
  have hdone : ∀ r, s.reader = some r → r.nleft = 0 →
      ∃ a s', Step cap s a s' ∧ a.isCall = false ∧ a.isEintr = false := by
    intro r hr hzero
    exact ⟨.returnReadn, _, .returnReadn hr hzero, rfl, rfl⟩
  cases hw : s.writer with
  | none =>
      cases hr : s.reader with
      | none => exact absurd ⟨hw, hr⟩ hf
      | some r =>
          rcases Nat.eq_zero_or_pos s.pipe.length with hzero | hpos
          · have hleft := h.nleft hc hr
            rw [unwritten_of_none hw, hzero] at hleft
            exact hdone r hr hleft
          · exact hread r hr hpos
  | some w =>
      by_cases hzero : w.nleft = 0
      · exact ⟨.returnWriten, _, .returnWriten hw hzero, rfl, rfl⟩
      · rcases Nat.lt_or_ge s.pipe.length (cap : ℕ) with hroom | hfull
        · exact ⟨.write 1, _, .write hw Nat.one_pos (by omega) hroom rfl, rfl, rfl⟩
        · -- there is no room, so there is something to read
          have hcap : 0 < (cap : ℕ) := cap.2
          cases hr : s.reader with
          | none =>
              have hnil := (h.arrived hc hr).2
              rw [unwritten_of_some hw] at hnil
              have hlen := Writen.length_rest (hc.writer w hw)
              rw [hnil, List.length_nil] at hlen
              omega
          | some r => exact hread r hr (by omega)

end Stream

/-- **What is sent arrives.**  When `Writen` is called with `p` on one end and `Readn` for as many
bytes on the other, no order of short writes, short reads and interrupts keeps the calls from
returning the length with the same bytes; and in any use of the two ends what the calls of `Readn`
deliver is the beginning of what the calls of `Writen` were given, where only the end of the stream
makes a call of `Readn` return less than it was asked for. -/
theorem byteStream_delivers (cap : ℕ+) :
    (∀ p tr s,
      ((byteStream cap).restrict fun _ a => a.isCall = false).Run (Stream.transfer p) tr s →
      tr.length ≤ 2 * p.length + 3 + (tr.countP fun x => x.2.isEintr) ∧
      (¬ s.Finished →
        ∃ a s', (byteStream cap).step s a s' ∧ a.isCall = false ∧ a.isEintr = false) ∧
      (s.Finished → s.writens = [⟨p, toSsize p.length⟩] ∧
        s.readns = [⟨p.length, p, toSsize p.length⟩])) ∧
    ∀ s, (byteStream cap).Reachable s →
      s.delivered <+: s.given ∧
      (∀ d ∈ s.readns, d.result = toSsize d.bytes.length ∧
        (d.bytes.length = d.n ∨ s.closed = true ∧ s.delivered = s.given)) ∧
      ∀ d ∈ s.writens, d.result = toSsize d.data.length := by
  constructor
  · intro p tr s hrun
    have hbase := Stream.reachable_transfer cap p
    have hc := (Stream.invariant_conserved cap).reachable (hrun.of_restrict.reachable hbase)
    have ht := Stream.transferring_run hrun
    refine ⟨?_, Stream.transfer_progress cap ht hc, ?_⟩
    · have hlen : tr.length + s.work ≤
          (Stream.transfer p).work + tr.countP fun x => x.2.isEintr := by
        refine hrun.length_le ?_
        intro s a s' hs
        exact Stream.work_step hs.1 hs.2
      have hwork : (Stream.transfer p).work = 2 * p.length + 3 := by
        simp [Stream.work, Stream.transfer, Stream.start, Writen.enter, Readn.enter]
        omega
      omega
    · rintro ⟨hw, hr⟩
      refine ⟨?_, (ht.arrived hc hr).1⟩
      obtain ⟨w, hw', _⟩ | ⟨_, d, hd, hp⟩ := ht.writer
      · simp [hw] at hw'
      · have hres := hc.writens d (by simp [hd])
        obtain ⟨data, result⟩ := d
        obtain rfl : data = p := hp
        obtain rfl : result = toSsize data.length := hres
        exact hd
  · intro s hs
    have hc := (Stream.invariant_conserved cap).reachable hs
    refine ⟨?_, fun d hd => ?_, hc.writens⟩
    · rw [← hc.bytes, List.append_assoc, List.append_assoc]
      exact List.prefix_append _ _
    · obtain ⟨hres, hlen | hend⟩ := hc.readns d hd
      · exact ⟨hres, .inl hlen⟩
      · exact ⟨hres, .inr ⟨hend.closed, hc.delivered_of_ended hend⟩⟩

end VModule
