import Mathlib.Data.List.Basic
import Mathlib.Data.List.Induction
import Sm83.Proofs.Interrupt.Dispatch
import Sm83.Proofs.Timer.Elapse

/-!
# What the serial link sends

The bytes that leave through the serial link are found among those that were sent and are still kept
by it, or among those that were handed over before. Wherever the hand-overs fall, the two together
are a log of the transfers: each transfer adds the byte that was last written to the data register
since the one before it, and nothing else adds a byte. In the usual mode of the memory only the two
addresses of the link lead to it.

## Main definitions

* `Serial.Action`, `Serial.Session` — what is done with a link, and a link in use.
* `Serial.Action.isTransfer`, `Serial.outgoing`, `Serial.transferred` — the log, by the actions
  alone.
* `Serial.Action.performThrough` — the same actions on the memory that the link belongs to.

## Main results

* `Serial.outgoing_append_singleton`, `Serial.transferred_append_singleton` — the log, one action
  further.
* `Serial.Session.performAll_eq` — the link after any actions.
* `Serial.performAllThrough_eq` — in a memory, only accesses to the link matter.
* `sent_bytes_are_transfer_log` — all of this together.
-/

namespace Sm83

namespace Serial

/-! ### A link in use -/

/-- What is done with a serial link: the processor accesses an address, and the bytes that were sent
are handed over. -/
inductive Action where
  | write (addr : UInt16) (v : UInt8)
  | read (addr : UInt16)
  | take
  deriving DecidableEq, Repr

/-- A serial link in use. -/
structure Session where
  link : Serial := {}
  /-- The requests of interrupts. -/
  requests : UInt8 := 0
  /-- The bytes that were handed over, the earliest first. -/
  taken : List UInt8 := []
  deriving DecidableEq, Repr

/-- Everything that was sent: what was handed over, and what the link still keeps. -/
def Session.captured (s : Session) : List UInt8 :=
  s.taken ++ s.link.sent.toList

/-- The link after an action. -/
def Action.perform (s : Session) : Action → Session
  | write a v =>
    { s with
      link := (s.link.writeAt a v).2
      requests := Interrupt.serial.request (s.link.writeAt a v).1 s.requests }
  | read _ => s
  | take => { s with link := s.link.take.2, taken := s.taken ++ s.link.take.1.toList }

/-- The link after some actions, the earliest first. -/
def Session.performAll (s : Session) (actions : List Action) : Session :=
  actions.foldl Action.perform s

/-! ### The log of the transfers -/

/-- Whether an action is a transfer: the control register is written, with the start bit 7 and the
clock bit 0 set. -/
def Action.isTransfer : Action → Bool
  | write a v => a == 0xFF02 && v.toNat.testBit 7 && v.toNat.testBit 0
  | _ => false

/-- The byte that an action writes to the data register. -/
def Action.data? : Action → Option UInt8
  | write a v => if a = 0xFF01 then some v else none
  | _ => none

/-- The byte that would leave after some actions: the last one written to the data register since
the last transfer. If there is none, it is what arrived with that transfer, or zero if there was no
transfer. -/
def outgoing (past : List Action) : UInt8 :=
  ((past.reverse.takeWhile (!·.isTransfer)).findSome? Action.data?).getD
    (if past.any Action.isTransfer then 0xFF else 0x00)

/-- The bytes that some actions transfer, the earliest first. -/
def transferred (actions : List Action) : List UInt8 :=
  (List.range actions.length).filterMap fun i =>
    if actions[i]?.any Action.isTransfer then some (outgoing (actions.take i)) else none

theorem outgoing_append_singleton (past : List Action) (a : Action) :
    outgoing (past ++ [a]) = if a.isTransfer then 0xFF else a.data?.getD (outgoing past) := by
  rw [outgoing, List.reverse_append, List.reverse_singleton, List.singleton_append,
    List.takeWhile_cons, List.any_append, List.any_cons, List.any_nil, Bool.or_false]
  cases htransfer : a.isTransfer with
  | true => simp
  | false =>
    cases hdata : a.data? with
    | none => simp [hdata, outgoing]
    | some v => simp [hdata]

theorem transferred_append_singleton (past : List Action) (a : Action) :
    transferred (past ++ [a]) =
      transferred past ++ if a.isTransfer then [outgoing past] else [] := by
  -- What the log says of the earlier actions does not depend on those that follow.
  have hearlier : ∀ i ∈ List.range past.length,
      (if (past ++ [a])[i]?.any Action.isTransfer then some (outgoing ((past ++ [a]).take i))
        else none) =
      if past[i]?.any Action.isTransfer then some (outgoing (past.take i)) else none := by
    intro i hi
    have hlt : i < past.length := List.mem_range.mp hi
    rw [List.getElem?_append_left hlt, List.take_append_of_le_length hlt.le]
  rw [transferred, List.length_append, List.length_singleton, List.range_succ,
    List.filterMap_append, List.filterMap_congr hearlier, ← transferred, List.filterMap_cons,
    List.filterMap_nil, List.getElem?_concat_length, List.take_left, Option.any_some]
  cases a.isTransfer <;> rfl

/-! ### The link after some actions -/

theorem starts_eq_testBit (v : UInt8) : starts v = (v.toNat.testBit 7 && v.toNat.testBit 0) := by
  have hall : ∀ p : Fin 256, starts (UInt8.ofNat p) =
      ((UInt8.ofNat p).toNat.testBit 7 && (UInt8.ofNat p).toNat.testBit 0) := by
    decide +kernel
  simpa using hall v.toFin

/-- A write to a link: a transfer sends the data register, and another write to one of the two
registers is stored there. -/
theorem writeAt_eq (s : Serial) (a : UInt16) (v : UInt8) :
    s.writeAt a v =
      if (Action.write a v).isTransfer then
        (true, { sb := 0xFF, sc := v &&& 0x7F, sent := s.sent.push s.sb })
      else
        (false, { s with
          sb := (Action.write a v).data?.getD s.sb
          sc := if a = 0xFF02 then v else s.sc }) := by
  unfold writeAt
  cases hr : Register.ofAddress? a with
  | none =>
    have hsb : a ≠ 0xFF01 := by
      rintro rfl
      cases hr
    have hsc : a ≠ 0xFF02 := by
      rintro rfl
      cases hr
    simp [Action.isTransfer, Action.data?, hsb, hsc]
  | some r =>
    obtain rfl := Register.ofAddress?_eq_some_iff.mp hr
    cases r with
    | sb => rfl
    | sc =>
      have hstarts : (Action.write Register.sc.address v).isTransfer = starts v := by
        rw [starts_eq_testBit]
        rfl
      rw [hstarts]
      rfl

namespace Session

/-- One action: the data register holds the byte that would leave, a transfer sends it and requests
the interrupt, and a hand-over loses nothing. -/
theorem perform_eq (s : Session) (a : Action) :
    (a.perform s).link.sb = (if a.isTransfer then 0xFF else a.data?.getD s.link.sb) ∧
      (a.perform s).captured = s.captured ++ (if a.isTransfer then [s.link.sb] else []) ∧
      (a.perform s).requests = Interrupt.serial.request a.isTransfer s.requests := by
  cases a with
  | read => exact ⟨rfl, (List.append_nil _).symm, rfl⟩
  | take =>
    refine ⟨rfl, ?_, rfl⟩
    simp [Action.perform, captured, Serial.take, Action.isTransfer]
  | write a v =>
    simp only [Action.perform, captured, writeAt_eq]
    cases (Action.write a v).isTransfer with
    | true => simp
    | false => simp

/-- A new link after any actions. -/
theorem performAll_eq (requests : UInt8) (actions : List Action) :
    let s := performAll { requests := requests } actions
    s.link.sb = outgoing actions ∧ s.captured = transferred actions ∧
      s.requests = Interrupt.serial.request (actions.any Action.isTransfer) requests := by
  induction actions using List.reverseRecOn with
  | nil => exact ⟨rfl, rfl, rfl⟩
  | append_singleton past a ih =>
    obtain ⟨hsb, hcaptured, hrequests⟩ := ih
    obtain ⟨hsb', hcaptured', hrequests'⟩ :=
      perform_eq (performAll { requests := requests } past) a
    rw [performAll, List.foldl_concat, ← performAll]
    refine ⟨?_, ?_, ?_⟩
    · rw [hsb', hsb, outgoing_append_singleton]
    · rw [hcaptured', hcaptured, hsb, transferred_append_singleton]
    · rw [hrequests', hrequests, List.any_append, Interrupt.request_or, List.any_cons, List.any_nil,
        Bool.or_false]

end Session

/-! ### The link of a memory -/

/-- Whether an action is one on the link: an access to one of its two addresses, or a hand-over. -/
def Action.meetsLink : Action → Bool
  | write a _ => a == 0xFF01 || a == 0xFF02
  | read a => a == 0xFF01 || a == 0xFF02
  | take => true

/-- An action on the link of a memory: accesses go to the memory. Beside it stands what was handed
over. -/
def Action.performThrough (s : Memory × List UInt8) : Action → Memory × List UInt8
  | write a v => (s.1.write8 a v, s.2)
  | read _ => s
  | take => ({ s.1 with serial := s.1.serial.take.2 }, s.2 ++ s.1.serial.take.1.toList)

/-- A link is not touched by writes to other addresses. -/
theorem writeAt_of_not_meetsLink {a : UInt16} {v : UInt8}
    (ha : (Action.write a v).meetsLink = false) (s : Serial) : s.writeAt a v = (false, s) := by
  simp only [Action.meetsLink, Bool.or_eq_false_iff, beq_eq_false_iff_ne] at ha
  simp [writeAt_eq, Action.isTransfer, Action.data?, ha]

theorem isFlat_performThrough (through : Memory × List UInt8) (a : Action) :
    (a.performThrough through).1.isFlat = through.1.isFlat := by
  cases a with
  | write a v => exact Memory.isFlat_write8 _ a v
  | read | take => rfl

/-- One action in the usual mode: the link of the memory goes on as it would alone, and only if the
action is one on the link. -/
theorem performThrough_eq {s : Session} {through : Memory × List UInt8}
    (hmode : through.1.isFlat = false) (hlink : through.1.serial = s.link)
    (htaken : through.2 = s.taken) (a : Action) :
    let s' := if a.meetsLink then a.perform s else s
    (a.performThrough through).1.serial = s'.link ∧ (a.performThrough through).2 = s'.taken := by
  cases a with
  | read a =>
    have hsame : (if (Action.read a).meetsLink then (Action.read a).perform s else s) = s :=
      ite_self s
    rw [hsame]
    exact ⟨hlink, htaken⟩
  | take =>
    simp only [Action.meetsLink, if_true, Action.performThrough, Action.perform, hlink, htaken,
      and_self]
  | write a v =>
    have hserial : (through.1.write8 a v).serial = (s.link.writeAt a v).2 := by
      rw [Memory.serial_write8 hmode, hlink]
    cases hmeets : (Action.write a v).meetsLink with
    | true => exact ⟨hserial, htaken⟩
    | false =>
      rw [writeAt_of_not_meetsLink hmeets] at hserial
      exact ⟨hserial, htaken⟩

/-- Any actions in the usual mode: of the accesses to the memory, those to the link matter. -/
theorem performAllThrough_eq (s : Session) (through : Memory × List UInt8)
    (hmode : through.1.isFlat = false) (hlink : through.1.serial = s.link)
    (htaken : through.2 = s.taken) (actions : List Action) :
    let through' := actions.foldl Action.performThrough through
    let s' := s.performAll (actions.filter Action.meetsLink)
    through'.1.serial = s'.link ∧ through'.2 = s'.taken := by
  induction actions generalizing s through with
  | nil => exact ⟨hlink, htaken⟩
  | cons a actions ih =>
    obtain ⟨hlink', htaken'⟩ := performThrough_eq hmode hlink htaken a
    have hrest := ih _ _ ((isFlat_performThrough through a).trans hmode) hlink' htaken'
    simp only [Session.performAll, List.foldl_filter] at hrest ⊢
    exact hrest

end Serial

/-- **The bytes sent over the serial link are a log of its transfers.** Whatever is done with a new
link, in any order, what was handed over and what is still kept are together one byte for each
transfer: the byte that was last written to the data register since the transfer before, or, if
there was none, all ones after another transfer and zero before any. The serial interrupt is
requested at the end if it was at the start or a transfer took place, and no other request changes.
In the usual mode of a memory what its link sends is what it would send alone, if only the accesses
to its own two addresses took place. -/
theorem sent_bytes_are_transfer_log (requests : UInt8) (actions : List Serial.Action) :
    let s := Serial.Session.performAll { requests := requests } actions
    s.taken ++ s.link.sent.toList = Serial.transferred actions ∧
      (s.requests.toNat.testBit 3 = true ↔
        requests.toNat.testBit 3 = true ∨ ∃ a ∈ actions, a.isTransfer = true) ∧
      (∀ i, i ≠ 3 → s.requests.toNat.testBit i = requests.toNat.testBit i) ∧
      ∀ m : Memory, m.isFlat = false →
        let through := actions.foldl Serial.Action.performThrough (m, [])
        let alone := Serial.Session.performAll { link := m.serial }
          (actions.filter Serial.Action.meetsLink)
        through.2 ++ through.1.serial.sent.toList = alone.taken ++ alone.link.sent.toList := by
  intro s
  obtain ⟨-, hcaptured, hrequests⟩ := Serial.Session.performAll_eq requests actions
  refine ⟨hcaptured, ?_, fun i hi => ?_, fun m hmode => ?_⟩
  · rw [hrequests, Interrupt.testBit_request, ← List.any_eq_true]
    simp [Interrupt.bit]
  · have hbit : (i == Interrupt.serial.bit) = false := beq_eq_false_iff_ne.mpr hi
    rw [hrequests, Interrupt.testBit_request, hbit, Bool.and_false, Bool.or_false]
  · intro through alone
    obtain ⟨hlink, htaken⟩ :=
      Serial.performAllThrough_eq { link := m.serial } (m, []) hmode rfl rfl actions
    rw [hlink, htaken]

/-- Of two bytes the second is sent twice, where all ones have arrived in between; a transfer on the
other side's clock sends nothing, and neither does a write next to the link. -/
theorem byte_sent_twice_is_replaced :
    let actions : List Serial.Action :=
      [.write 0xFF02 0x81, .write 0xFF01 0x48, .write 0xFF01 0x69, .take, .write 0xFF02 0xFF,
        .write 0xFF02 0x81, .read 0xFF01, .write 0xFF02 0x80, .write 0xFF03 0x81]
    let s := Serial.Session.performAll { requests := 0x01 } actions
    let m : Memory := {}
    let through := actions.foldl Serial.Action.performThrough (m, [])
    m.isFlat = false ∧ (2 : Nat) ≠ 3 ∧ s.taken ++ s.link.sent.toList = [0x00, 0x69, 0xFF] ∧
      s.requests.toNat.testBit 3 = true ∧
      s.requests.toNat.testBit 2 = (0x01 : UInt8).toNat.testBit 2 ∧
      through.2 ++ through.1.serial.sent.toList = [0x00, 0x69, 0xFF] := by
  intro actions s m through
  have hmode : m.isFlat = false := rfl
  obtain ⟨hlog, hserial, hother, hmemory⟩ := sent_bytes_are_transfer_log 0x01 actions
  have hthrough := hmemory m hmode
  exact ⟨hmode, by decide, hlog.trans (by decide), hserial.mpr (.inr ⟨_, List.mem_cons_self, rfl⟩),
    hother 2 (by decide), hthrough.trans (by decide)⟩

end Sm83
