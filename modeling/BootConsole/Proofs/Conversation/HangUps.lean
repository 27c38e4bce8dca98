import BootConsole.Proofs.Conversation.Flow

/-!
# Hang-ups in the courses

A read that finds the connection closed by the console is the last of its wait. The wait is ended by
it if there was any output before, and a step then has a response which says so; otherwise the wait
has failed.
-/

namespace BootConsole

variable {events : List Happening} {pattern : Pattern} {watch : Watch}

/-! ## A hang-up in a wait -/

theorem Reading.hungUp_mem_iff {outcome : Except Failure (Option Bytes)}
    (reads : Reading .heard events outcome) :
    .hungUp ∈ events ↔ outcome = .error .disconnected := by
  induction reads with
  | @goingBy event _ _ goesBy _ induction =>
      have other : .hungUp ≠ event := by
        rintro rfl
        cases goesBy
      simp [other, induction]
  | text | silence | hungUp | failed | unanswered => simp

theorem Sending.hungUp_not_mem {data : Bytes} {outcome : Except Failure Unit}
    (sends : Sending data events outcome) : .hungUp ∉ events := by
  cases sends <;> simp

theorem Relaying.hungUp_mem_iff {outcome : Except Failure (Option Bytes)}
    (relays : Relaying events outcome) :
    .hungUp ∈ events ↔ outcome = .error .disconnected := by
  cases relays with
  | shown reads => simp [reads.hungUp_mem_iff]
  | silence reads | unread reads => exact reads.hungUp_mem_iff
  | unshown reads shows =>
      cases shows with
      | refused | stuck => simp [reads.hungUp_mem_iff]

/-- A wait for a pattern ends with a hang-up if one came after some output. -/
theorem Awaiting.hungUp_iff {outcome : Except Failure (WaitEnd × Watch)}
    (awaits : Awaiting pattern watch events outcome) :
    (∃ seen, outcome = .ok (.hungUp, seen)) ↔
      .hungUp ∈ events ∧ (watch.begun = true ∨ heardIn events ≠ []) := by
  induction awaits with
  | matched relays | late relays => simp [relays.hungUp_mem_iff]
  | goesOn relays _ _ induction =>
      rw [induction, List.mem_append, relays.hungUp_mem_iff, heardIn_append,
        relays.flows_of_chunk.2]
      simp [Watch.take]
  | hungUp relays begun => simp [relays.hungUp_mem_iff, begun]
  -- A hang-up that fails the wait has found it without output.
  | failed relays other =>
      refine iff_of_false (by simp) fun gone => ?_
      have same := relays.hungUp_mem_iff.mp gone.1
      cases same
      rcases gone.2 with begun | heard
      · exact other ⟨rfl, begun⟩
      · exact heard relays.nothing_of_hangUp.1

/-- As long as a wait is not ended by a match, the pattern is in none of what was watched. -/
theorem Awaiting.unmatched {outcome : Except Failure (WaitEnd × Watch)}
    (awaits : Awaiting pattern watch events outcome)
    (missed : ∀ bytes seen, outcome ≠ .ok (.matched bytes, seen)) (hungUp : .hungUp ∈ events) :
    ∀ count, 0 < count → count ≤ (heardIn events).length →
      (watch.takeAll ((heardIn events).take count)).match? pattern = none := by
  induction awaits with
  | matched => exact absurd rfl (missed _ _)
  | late relays => simp [relays.hungUp_mem_iff] at hungUp
  | hungUp relays =>
      intro count positive inside
      rw [relays.nothing_of_hangUp.1, List.length_nil] at inside
      omega
  | failed relays =>
      cases relays.hungUp_mem_iff.mp hungUp
      intro count positive inside
      rw [relays.nothing_of_hangUp.1, List.length_nil] at inside
      omega
  | @goesOn _ _ later _ _ relays missing _ induction =>
      intro count positive inside
      rw [heardIn_append, relays.flows_of_chunk.2] at inside ⊢
      have onward : Happening.hungUp ∈ later := by simpa [relays.hungUp_mem_iff] using hungUp
      match count with
      | 1 => simpa using missing
      | count + 2 =>
          have rest := induction missed onward (count + 1) (by omega) (by simpa using inside)
          simpa using rest

theorem Watch.begun_takeAll {chunks : List Bytes} (some : chunks ≠ []) :
    (watch.takeAll chunks).begun = true := by
  rcases List.eq_nil_or_concat chunks with rfl | ⟨front, last, rfl⟩
  · contradiction
  · rw [List.concat_eq_append, takeAll_append]
    rfl

namespace Session

variable {session : Session} {step : Step}

/-! ## A hang-up in a step -/

theorem waiting_hungUp_iff {command : String} {outcome : Except Failure (Option Bytes × Watch)}
    (waits : session.waiting command pattern watch events outcome) :
    (∃ seen, outcome = .ok (none, seen)) ↔
      .hungUp ∈ events ∧ (watch.begun = true ∨ heardIn events ≠ []) := by
  rcases waits with ⟨failure, awaits, rfl⟩ | ⟨⟨ended, seen⟩, earlier, later, awaits, ends, rfl⟩
  · rw [← awaits.hungUp_iff]
    simp
  · match ended with
    | .matched bytes =>
        rcases ends with ⟨rfl, rfl⟩
        rw [List.append_nil, ← awaits.hungUp_iff]
        simp
    | .hungUp =>
        rcases ends with ⟨rfl, rfl⟩
        rw [List.append_nil, ← awaits.hungUp_iff]
        simp
    | .late =>
        rcases ends with ⟨rfl, rfl⟩
        rw [List.append_nil, ← awaits.hungUp_iff]
        simp

/-- A wait that is ended by a match goes without a hang-up, and leaves output behind. -/
theorem matched_of_waiting {command : String} {bytes : Bytes} {seen : Watch}
    (waits : session.waiting command pattern watch events (.ok (some bytes, seen))) :
    .hungUp ∉ events ∧ heardIn events ≠ [] ∧ seen.begun = true := by
  rcases awaiting_of_waiting waits with ⟨_, _, awaits⟩ | ⟨impossible, _⟩
  · rcases awaits.found with ⟨_, heard, _⟩
    refine ⟨fun hungUp => ?_, heard, ?_⟩
    · rcases awaits.hungUp_iff.mpr ⟨hungUp, .inr heard⟩ with ⟨_, impossible⟩
      cases impossible
    · rw [awaits.relayed.1]
      exact Watch.begun_takeAll heard
  · cases impossible

theorem bringing_hungUp_iff {outcome : Except Failure (Option Bytes × Watch)}
    (brings : session.bringing step events outcome) :
    (∃ seen, outcome = .ok (none, seen)) ↔ .hungUp ∈ events ∧ heardIn events ≠ [] := by
  unfold bringing at brings
  cases replied : step.reply with
  | none =>
      rw [replied] at brings
      simpa [Watch.start] using waiting_hungUp_iff brings
  | some reply =>
      rw [replied] at brings
      rcases brings with ⟨failure, waits, rfl⟩ | ⟨⟨asked, seen⟩, earlier, later, waits, ends, rfl⟩
      · simpa [Watch.start] using waiting_hungUp_iff waits
      cases asked with
      | none =>
          rcases ends with ⟨rfl, rfl⟩
          simpa [Watch.start] using waiting_hungUp_iff waits
      | some bytes =>
          rcases matched_of_waiting waits with ⟨clean, heard, begun⟩
          rcases ends with ⟨failure, sends, rfl⟩ | ⟨_, sending, further, sends, waits, rfl⟩
          · simp [clean, sends.hungUp_not_mem]
          · rw [waiting_hungUp_iff waits]
            simp [clean, heard, sends.hungUp_not_mem, begun, Watch.turn]

/-- The response of a step says that the console has closed the connection if it hung up after some
output. -/
theorem stepping_closed_iff {outcome : Except Failure Response}
    (steps : session.stepping step events outcome) :
    (∃ response, outcome = .ok response ∧ response.closed = true) ↔
      .hungUp ∈ events ∧ heardIn events ≠ [] := by
  rcases steps with ⟨failure, ⟨rfl, _⟩, rfl⟩ | ⟨_, _, _, ⟨rfl, _⟩, goesOn, rfl⟩
  · simp
  rcases goesOn with ⟨failure, sends, rfl⟩ | ⟨_, sending, _, sends, brings, rfl⟩
  · simp [sends.hungUp_not_mem]
  rcases brings with ⟨failure, brings, rfl⟩ | ⟨⟨ending, seen⟩, brought, notes, brings, ends, rfl⟩
  · have never := bringing_hungUp_iff brings
    simpa [sends.hungUp_not_mem, sends.nothing.1] using never
  · rcases ends with ⟨noted, rfl⟩
    have hangs := bringing_hungUp_iff brings
    have unnoted : Happening.hungUp ∉ notes := fun member => by cases noted _ member
    simp [sends.hungUp_not_mem, sends.nothing.1, (nothing_of_notes noted).1, unnoted, ← hangs,
      response]

end Session

end BootConsole
