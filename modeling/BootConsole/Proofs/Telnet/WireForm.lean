import BootConsole.Proofs.Telnet.RoundTrip
import Mathlib.Data.List.Basic

/-!
# What the encoder emits

A carriage return goes out as it is, and still a text can be taken back from the wire: a line feed
stands on it only behind the carriage return that was put there. What comes out is all that has its
line feeds behind carriage returns and its IACs in pairs, and a reader finds no command in it.
-/

namespace BootConsole.Telnet

/-! ## The form of the wire -/

def FeedsFollowReturns (wire : Bytes) : Prop :=
  ∀ before behind, wire = before ++ lineFeed :: behind → before.getLast? = some carriageReturn

/-- Every stretch of IACs that goes on at neither end has an even number of them. -/
def IacsInPairs (wire : Bytes) : Prop :=
  ∀ before count behind, wire = before ++ (List.replicate count iac ++ behind) →
    before.getLast? ≠ some iac → behind.head? ≠ some iac → 2 ∣ count

variable {byte : UInt8} {rest : Bytes}

theorem feedsFollowReturns_nil : FeedsFollowReturns [] := by
  intro before behind joined
  simp at joined

theorem not_feedsFollowReturns : ¬FeedsFollowReturns (lineFeed :: rest) := by
  intro follows
  have first := follows [] rest rfl
  cases first

/-- A byte that is neither a line feed nor the carriage return in front of one has no part in it. -/
theorem feedsFollowReturns_cons (other : byte ≠ lineFeed)
    (apart : byte = carriageReturn → rest.head? ≠ some lineFeed) :
    FeedsFollowReturns (byte :: rest) ↔ FeedsFollowReturns rest := by
  constructor
  · intro follows before behind joined
    have ends := follows (byte :: before) behind (by rw [joined]; rfl)
    cases before with
    | nil =>
        have returns : byte = carriageReturn := Option.some.inj ends
        exact absurd (by rw [joined]; rfl) (apart returns)
    | cons first others => rwa [List.getLast?_cons_cons] at ends
  · intro follows before behind joined
    rcases List.cons_eq_append_iff.mp joined with ⟨rfl, feeds⟩ | ⟨others, rfl, onward⟩
    · exact absurd (List.cons.inj feeds).1.symm other
    · exact List.mem_getLast?_cons (follows others behind onward)

theorem feedsFollowReturns_iac : FeedsFollowReturns (iac :: rest) ↔ FeedsFollowReturns rest :=
  feedsFollowReturns_cons (by decide) fun returns => absurd returns (by decide)

theorem feedsFollowReturns_lineEnd :
    FeedsFollowReturns (carriageReturn :: lineFeed :: rest) ↔ FeedsFollowReturns rest := by
  constructor
  · intro follows before behind joined
    have ends := follows (carriageReturn :: lineFeed :: before) behind (by rw [joined]; rfl)
    cases before with
    | nil => cases ends
    | cons first others => rwa [List.getLast?_cons_cons, List.getLast?_cons_cons] at ends
  · intro follows before behind joined
    rcases List.cons_eq_append_iff.mp joined with ⟨rfl, feeds⟩ | ⟨others, rfl, onward⟩
    · cases feeds
    rcases List.cons_eq_append_iff.mp onward with ⟨rfl, _⟩ | ⟨later, rfl, beyond⟩
    · rfl
    · exact List.mem_getLast?_cons (List.mem_getLast?_cons (follows later behind beyond))

theorem iacsInPairs_nil : IacsInPairs [] := by
  intro before count behind joined _ _
  have sizes := congrArg List.length joined
  simp only [List.length_nil, List.length_append, List.length_replicate] at sizes
  omega

theorem not_iacsInPairs (single : rest.head? ≠ some iac) : ¬IacsInPairs (iac :: rest) := by
  intro pairs
  have even := pairs [] 1 rest rfl nofun single
  omega

theorem iacsInPairs_cons (other : byte ≠ iac) : IacsInPairs (byte :: rest) ↔ IacsInPairs rest := by
  constructor
  · intro pairs before count behind joined apart ended
    refine pairs (byte :: before) count behind (by rw [joined]; rfl) ?_ ended
    cases before with
    | nil => simpa using other
    | cons first others => rwa [List.getLast?_cons_cons]
  · intro pairs before count behind joined apart ended
    rcases List.cons_eq_append_iff.mp joined with ⟨rfl, begins⟩ | ⟨others, rfl, onward⟩
    · cases count with
      | zero => exact Nat.dvd_zero 2
      | succ count => exact absurd (List.cons.inj begins).1.symm other
    · exact pairs others count behind onward (mt List.mem_getLast?_cons apart) ended

theorem iacsInPairs_pair : IacsInPairs (iac :: iac :: rest) ↔ IacsInPairs rest := by
  constructor
  · intro pairs before count behind joined apart ended
    cases before with
    | nil =>
        have even := pairs [] (count + 2) behind (by rw [joined]; rfl) nofun ended
        omega
    | cons first others =>
        refine pairs (iac :: iac :: first :: others) count behind (by rw [joined]; rfl) ?_ ended
        rwa [List.getLast?_cons_cons, List.getLast?_cons_cons]
  · intro pairs before count behind joined apart ended
    rcases List.cons_eq_append_iff.mp joined with ⟨rfl, begins⟩ | ⟨others, rfl, onward⟩
    · match count with
      | 0 => exact Nat.dvd_zero 2
      | 1 =>
          have goesOn : behind = iac :: rest := (List.cons.inj begins).2
          exact absurd (by rw [goesOn]; rfl) ended
      | count + 2 =>
          have behindPair : List.replicate count iac ++ behind = rest :=
            (List.cons.inj (List.cons.inj begins).2).2
          have even := pairs [] count behind behindPair.symm nofun ended
          omega
    rcases List.cons_eq_append_iff.mp onward with ⟨rfl, _⟩ | ⟨later, rfl, beyond⟩
    · exact absurd rfl apart
    · refine pairs later count behind beyond (fun ends => apart ?_) ended
      exact List.mem_getLast?_cons (List.mem_getLast?_cons ends)

/-! ## Taking the text back -/

def recover? : Bytes → Option Bytes
  | [] => some []
  | [byte] => if byte = iac ∨ byte = lineFeed then none else some [byte]
  | first :: second :: rest =>
      if first = iac then
        if second = iac then (recover? rest).map (iac :: ·) else none
      else if first = lineFeed then none
      else if first = carriageReturn ∧ second = lineFeed then
        (recover? rest).map (lineFeed :: ·)
      else (recover? (second :: rest)).map (first :: ·)

@[simp] theorem recover?_lineFeed (rest : Bytes) : recover? (lineFeed :: rest) = none := by
  cases rest with
  | nil => rfl
  | cons second others => rfl

theorem recover?_encodeByte_append (byte : UInt8) {data : Bytes}
    (recovered : recover? rest = some data) :
    recover? (encodeByte byte ++ rest) = some (byte :: data) := by
  rw [encodeByte]
  split
  · next escapes => simp [recover?, recovered, escapes]
  · next ordinary =>
      split
      · next feeds =>
          have returns : carriageReturn ≠ iac := by decide
          have stays : carriageReturn ≠ lineFeed := by decide
          simp [recover?, recovered, feeds, returns, stays]
      · next inLine =>
          cases rest with
          | nil =>
              obtain rfl : [] = data := Option.some.inj recovered
              simp [recover?, ordinary, inLine]
          | cons second others =>
              -- What follows is no line feed, since nothing is read back that begins with one.
              have apart : second ≠ lineFeed := by
                rintro rfl
                rw [recover?_lineFeed] at recovered
                cases recovered
              simp [recover?, recovered, ordinary, inLine, apart]

theorem recover?_encode (data : Bytes) : recover? (encode data) = some data := by
  induction data with
  | nil => rfl
  | cons byte rest induction => exact recover?_encodeByte_append byte induction

theorem encode_of_recover? {wire data : Bytes} (recovered : recover? wire = some data) :
    encode data = wire := by
  fun_induction recover? wire generalizing data with
  | case1 =>
      obtain rfl : [] = data := Option.some.inj recovered
      rfl
  | case2 byte stray => cases recovered
  | case3 byte ordinary =>
      obtain rfl : [byte] = data := Option.some.inj recovered
      rw [encode_cons, encodeByte_of_ordinary (not_or.mp ordinary)]
      rfl
  | case4 rest induction =>
      rcases Option.map_eq_some_iff.mp recovered with ⟨others, behind, rfl⟩
      rw [encode_cons, induction behind]
      rfl
  | case5 second rest single => cases recovered
  | case6 second rest => cases recovered
  | case7 first second rest ordinary inLine lineEnd induction =>
      rcases Option.map_eq_some_iff.mp recovered with ⟨others, behind, rfl⟩
      obtain ⟨rfl, rfl⟩ := lineEnd
      rw [encode_cons, induction behind]
      rfl
  | case8 first second rest ordinary inLine single induction =>
      rcases Option.map_eq_some_iff.mp recovered with ⟨others, behind, rfl⟩
      rw [encode_cons, induction behind, encodeByte_of_ordinary ⟨ordinary, inLine⟩]
      rfl

theorem recover?_eq_some_iff (wire data : Bytes) :
    recover? wire = some data ↔ encode data = wire := by
  constructor
  · exact encode_of_recover?
  · rintro rfl
    exact recover?_encode data

/-- Carriage returns on both sides of a line end. -/
example : recover? [0x0D, 0x0D, 0x0A, 0x0D, 255, 255] = some [0x0D, 0x0A, 0x0D, 255] := by decide

/-- The wire can be read back if and only if it has the form. -/
theorem isSome_recover?_iff (wire : Bytes) :
    (recover? wire).isSome = true ↔ FeedsFollowReturns wire ∧ IacsInPairs wire := by
  fun_induction recover? wire with
  | case1 => simp [feedsFollowReturns_nil, iacsInPairs_nil]
  | case2 byte stray =>
      refine iff_of_false (by simp) fun form => ?_
      rcases stray with rfl | rfl
      · exact not_iacsInPairs (by simp) form.2
      · exact not_feedsFollowReturns form.1
  | case3 byte ordinary =>
      rw [not_or] at ordinary
      rw [feedsFollowReturns_cons ordinary.2 (by simp), iacsInPairs_cons ordinary.1]
      simp [feedsFollowReturns_nil, iacsInPairs_nil]
  | case4 rest induction =>
      rw [Option.isSome_map, induction, feedsFollowReturns_iac, feedsFollowReturns_iac,
        iacsInPairs_pair]
  | case5 second rest single =>
      exact iff_of_false (by simp) fun form => not_iacsInPairs (by simpa using single) form.2
  | case6 second rest => exact iff_of_false (by simp) fun form => not_feedsFollowReturns form.1
  | case7 first second rest ordinary inLine lineEnd induction =>
      obtain ⟨rfl, rfl⟩ := lineEnd
      rw [Option.isSome_map, induction, feedsFollowReturns_lineEnd, iacsInPairs_cons (by decide),
        iacsInPairs_cons (by decide)]
  | case8 first second rest ordinary inLine single induction =>
      have apart : first = carriageReturn → (second :: rest).head? ≠ some lineFeed := by
        simpa using single
      rw [Option.isSome_map, induction, feedsFollowReturns_cons inLine apart,
        iacsInPairs_cons ordinary]

/-! ## Nothing that reads as a command -/

/-- Wherever the bytes are cut, a reader of text is there between two bytes of text, or behind an
IAC that the next byte doubles. -/
def HoldsNoCommand (wire : Bytes) : Prop :=
  ∀ state : State, state.IsOutside → ∀ front behind, wire = front ++ behind →
    (run state front).1.IsOutside ∨
      (run state front).1 = .command ∧ behind.head? = some iac

theorem pair_cut {first second : UInt8} {front behind : Bytes} (begun : front ≠ [])
    (more : behind ≠ []) (joined : [first, second] = front ++ behind) :
    front = [first] ∧ behind = [second] := by
  rcases List.cons_eq_append_iff.mp joined with ⟨none, _⟩ | ⟨others, rfl, onward⟩
  · exact absurd none begun
  · rcases List.append_eq_singleton_iff.mp onward.symm with ⟨rfl, last⟩ | ⟨_, none⟩
    · exact ⟨rfl, last⟩
    · exact absurd none more

/-- Only a doubled IAC and a line end can be cut. -/
theorem encodeByte_cut {front behind : Bytes} (begun : front ≠ []) (more : behind ≠ [])
    (joined : encodeByte byte = front ++ behind) :
    front = [iac] ∧ behind = [iac] ∨ front = [carriageReturn] ∧ behind = [lineFeed] := by
  rw [encodeByte] at joined
  split at joined
  · exact .inl (pair_cut begun more joined)
  · split at joined
    · exact .inr (pair_cut begun more joined)
    · rcases List.append_eq_singleton_iff.mp joined.symm with ⟨none, _⟩ | ⟨_, none⟩
      · exact absurd none begun
      · exact absurd none more

theorem run_encodeByte_cut {state : State} (outside : state.IsOutside) {front behind : Bytes}
    (joined : encodeByte byte = front ++ behind) :
    (run state front).1.IsOutside ∨
      (run state front).1 = .command ∧ behind.head? = some iac := by
  cases front with
  | nil => exact .inl outside
  | cons first others =>
      cases behind with
      | nil =>
          rcases run_encodeByte outside byte with ⟨text, read, _⟩
          rw [List.append_nil] at joined
          rw [← joined, read]
          exact .inl (State.isOutside_behind byte)
      | cons next later =>
          rcases encodeByte_cut (by simp) (by simp) joined with ⟨front, behind⟩ | ⟨front, _⟩
          · rw [front, behind]
            refine .inr ⟨?_, rfl⟩
            rcases outside with rfl | rfl <;> rfl
          · rw [front]
            refine .inl (.inr ?_)
            rcases outside with rfl | rfl <;> rfl

theorem holdsNoCommand_encode (data : Bytes) : HoldsNoCommand (encode data) := by
  intro state outside front behind joined
  induction data generalizing state front with
  | nil =>
      obtain ⟨rfl, rfl⟩ := List.nil_eq_append_iff.mp joined
      exact .inl outside
  | cons byte rest induction =>
      rw [encode_cons] at joined
      rcases List.append_eq_append_iff.mp joined with ⟨inside, rfl, onward⟩ | ⟨inside, cut, rfl⟩
      · rcases run_encodeByte outside byte with ⟨text, read, _⟩
        rw [run_append, read]
        exact induction _ (State.isOutside_behind byte) inside onward
      · rcases run_encodeByte_cut outside cut with between | ⟨escapes, doubled⟩
        · exact .inl between
        · refine .inr ⟨escapes, ?_⟩
          rw [List.head?_append, doubled]
          rfl

/-- No two texts are encoded alike, and what comes out is exactly what has every line feed behind a
carriage return and every stretch of IACs of an even length. So the text can be taken back, and no
reader finds a command. -/
theorem encode_reversible :
    Function.Injective encode ∧
      (∀ wire, (∃ data, encode data = wire) ↔ FeedsFollowReturns wire ∧ IacsInPairs wire) ∧
      (∀ wire data, recover? wire = some data ↔ encode data = wire) ∧
      ∀ data, HoldsNoCommand (encode data) := by
  refine ⟨fun first second same => ?_, fun wire => ?_, recover?_eq_some_iff, holdsNoCommand_encode⟩
  · have recovered := recover?_encode second
    rw [← same, recover?_encode] at recovered
    exact Option.some.inj recovered
  · rw [← isSome_recover?_iff, Option.isSome_iff_exists]
    exact exists_congr fun data => (recover?_eq_some_iff wire data).symm

end BootConsole.Telnet
