import Mathlib
import Wagonet.Library.Delivery
import Wagonet.TurnReplies

/-!
The cycles of a connection, one after the other.

While the shutdown channel is used for a shutdown only, what a connection has done is a
number of cycles that went on to another one, and a last one that may be cut off
anywhere. What the command handler has returned depends on the requests before it.
-/

namespace Wagonet

open Library

namespace ConnectionHandler

variable (P : List (Net Handler).Event → Prop)

/-- Some cycles with this size limit that have all gone on to another one, with this
property. -/
inductive Chain (m : Nat) : List (Net Handler).Event → Prop
  | nil : Chain m []
  | next {s s' : FramedServer} {es rest : List (Net Handler).Event} :
      s.maxBufferSize = m → (ProtocolHandler.handleNext s).Run es s' (.ok true) → P es →
        Chain m rest → Chain m (es ++ rest)

/-- Such cycles, and one more that may be cut off. -/
inductive Loop (m : Nat) : List (Net Handler).Event → Prop
  | last {s : FramedServer} {es : List (Net Handler).Event}
      {t : Task (Net Handler) FramedServer (Except Error Bool)} :
      s.maxBufferSize = m → (ProtocolHandler.handleNext s).Partial es t → Loop m es
  | next {s s' : FramedServer} {es rest : List (Net Handler).Event} :
      s.maxBufferSize = m → (ProtocolHandler.handleNext s).Run es s' (.ok true) → P es →
        Loop m rest → Loop m (es ++ rest)

variable {P}

variable {m : Nat} {es es' : List (Net Handler).Event}

theorem Chain.concat {s s' : FramedServer} (h : Chain P m es) (hs : s.maxBufferSize = m)
    (hrun : (ProtocolHandler.handleNext s).Run es' s' (.ok true)) (hP : P es') :
    Chain P m (es ++ es') := by
  induction h with
  | nil => simpa using Chain.next hs hrun hP .nil
  | next hs' hrun' hP' _ ih => simpa using ih.next hs' hrun' hP'

theorem Chain.loop {s : FramedServer} {t : Task (Net Handler) FramedServer (Except Error Bool)}
    (h : Chain P m es) (hs : s.maxBufferSize = m)
    (ht : (ProtocolHandler.handleNext s).Partial es' t) : Loop P m (es ++ es') := by
  induction h with
  | nil => exact .last hs ht
  | next hs' hrun' hP _ ih => simpa using ih.next hs' hrun' hP

/-- What was done until some moment is again such cycles. -/
theorem Loop.before (h : Loop P m (es ++ es')) : Loop P m es := by
  generalize hall : es ++ es' = all at h
  induction h generalizing es es' with
  | last hs ht =>
      subst hall
      obtain ⟨t', ht'⟩ := ht.before
      exact .last hs ht'
  | next hs hrun hP _ ih =>
      rcases List.append_eq_append_iff.mp hall with ⟨mid, rfl, -⟩ | ⟨rest, rfl, hrest⟩
      · obtain ⟨t', ht', -⟩ := hrun.before
        exact .last hs ht'
      · exact .next hs hrun hP (ih hrest.symm)

/-- Nothing is written, and no command handler entered, before a header was read. -/
theorem Loop.quiet (h : Loop P m es) (hshort : (received es).length < RequestHeader.encodedLen) :
    sent es = [] ∧ entered es = [] := by
  have silent {es : List (Net Handler).Event} {turn : Turn} (hserved : turn.Served m es)
      (hshort : (received es).length < RequestHeader.encodedLen) :
      sent es = [] ∧ entered es = [] ∧ ¬turn.Whole := by
    obtain ⟨⟨hvalid, hconsumed, hcalled⟩, hwrote, -⟩ := hserved
    rw [hconsumed] at hshort
    cases turn with
    | cutHeader bytes => exact ⟨List.prefix_nil.mp hwrote, hcalled, id⟩
    | _ =>
        exfalso
        simp only [Turn.consumed, Turn.frames, List.flatten_cons, List.length_append,
          RequestHeader.encode_length] at hshort
        omega
  cases h with
  | last hs ht =>
      subst hs
      obtain ⟨turn, hserved⟩ := ProtocolHandler.served_of_partial ht
      obtain ⟨hsent, hentered, -⟩ := silent hserved hshort
      exact ⟨hsent, hentered⟩
  | next hs hrun _ _ =>
      subst hs
      obtain ⟨turn, hserved, hdone⟩ := ProtocolHandler.done_of_run hrun
      rw [received_append, List.length_append] at hshort
      exact absurd hdone.whole (silent hserved (by omega)).2.2

/-- The cycles that went on, and the last one. -/
theorem Loop.split (h : Loop P m es) :
    ∃ (past last : List (Net Handler).Event) (s : FramedServer)
      (t : Task (Net Handler) FramedServer (Except Error Bool)),
      es = past ++ last ∧ Chain P m past ∧ s.maxBufferSize = m ∧
        (ProtocolHandler.handleNext s).Partial last t := by
  induction h with
  | last hs ht => exact ⟨[], _, _, _, rfl, .nil, hs, ht⟩
  | next hs hrun hP _ ih =>
      obtain ⟨past, last, s, t, rfl, hchain, hlast, ht⟩ := ih
      exact ⟨_, last, s, t, (List.append_assoc _ _ _).symm, .next hs hrun hP hchain, hlast, ht⟩

theorem Chain.stop (h : Chain P m es) : Loop P m es := by
  have hlast : (ProtocolHandler.handleNext ⟨.withCapacity m, m⟩).Partial [] _ := .refl
  simpa using h.loop rfl hlast

/-! ### The cycles of a run -/

variable {handler : CommandHandler} {maxBufferSize : Nat} {c c' : ConnectionHandler} {a : Act}

/-- The shutdown channel is used for a shutdown: `true` is sent and nothing else, and the
`changed` branch is taken for it, or while the current `handle_next` has completed no
operation. -/
def Heeds (c : ConnectionHandler) : Act → Prop
  | .notify value => value = true
  | .wake => c.shutdown.value = true ∨ c.current = []
  | _ => True

instance (c : ConnectionHandler) : ∀ a, Decidable (Heeds c a)
  | .notify value => inferInstanceAs (Decidable (value = true))
  | .wake => decidable_of_iff (c.shutdown.value = true ∨ c.current.isEmpty = true) <| by
      rw [Heeds, List.isEmpty_iff]
  | .deliver _ | .close | .dropSenders | .tlsAccepted _ | .setUp _ | .progress _ | .elapse _
  | .turn | .borrow | .abort => .isTrue trivial

variable (P) in
/-- A cycle that goes on to another one has this property. -/
def Passes (c : ConnectionHandler) : Act → Prop
  | .turn => P c.current
  | _ => True

/-- The operations of the cycles that have ended. -/
def pastEvents (c : ConnectionHandler) : List (Net Handler).Event := c.past.flatMap (·.events)

theorem events_eq (c : ConnectionHandler) : c.events = c.pastEvents ++ c.current := rfl

/-- A cycle that was cut off is the last one. -/
def Cycling (P : List (Net Handler).Event → Prop) (m : Nat) (c : ConnectionHandler) : Prop :=
  match c.phase with
  | .tlsAccept => c.past = [] ∧ c.current = []
  | .setUp => c.past = [] ∧ c.current = []
  | .serving t => Chain P m c.pastEvents ∧
      ∃ s, s.maxBufferSize = m ∧ (ProtocolHandler.handleNext s).Partial c.current t
  | .woken s => c.current = [] ∧ s.maxBufferSize = m ∧ Loop P m c.pastEvents ∧
      (c.shutdown.value = true ∨ Chain P m c.pastEvents)
  | .ended _ => c.current = [] ∧ Loop P m c.pastEvents
  | .aborted => c.current = [] ∧ Loop P m c.pastEvents

theorem Cycling.loop (h : Cycling P m c) : Loop P m c.events := by
  unfold Cycling at h
  rw [events_eq]
  split at h
  · rw [pastEvents, h.1, h.2]
    exact Chain.nil.stop
  · rw [pastEvents, h.1, h.2]
    exact Chain.nil.stop
  · obtain ⟨hchain, s, hs, ht⟩ := h
    exact hchain.loop hs ht
  · rw [h.1, List.append_nil]
    exact h.2.2.1
  · rw [h.1, List.append_nil]
    exact h.2
  · rw [h.1, List.append_nil]
    exact h.2

theorem pastEvents_endCycle (c : ConnectionHandler) (fate : Fate) (phase : Phase) :
    (c.endCycle fate phase).pastEvents = c.events := by
  simp [pastEvents, endCycle, events]

theorem cycling_of_fresh (h : Fresh c) : Cycling P m c := by
  obtain ⟨hphase | hphase, -, -, hpast, hcurrent⟩ := h
  · simp only [Cycling, hphase]
    exact ⟨hpast, hcurrent⟩
  · simp only [Cycling, hphase]
    exact ⟨hpast, hcurrent⟩

theorem Cycling.step (h : Cycling P (sizeLimit maxBufferSize) c) (hok : Heeds c a)
    (hpass : Passes P c a)
    (hs : ConnectionHandler.step handler maxBufferSize c a = some c') :
    Cycling P (sizeLimit maxBufferSize) c' := by
  have hloop := h.loop
  unfold Cycling at h
  cases a with
  | deliver bytes => cases hs; exact h
  | close => cases hs; exact h
  | notify value =>
      cases hs
      obtain rfl : value = true := hok
      unfold Cycling
      split at h
      all_goals
        rename_i hphase
        simp only [hphase]
        first | exact h | exact ⟨h.1, h.2.1, h.2.2.1, .inl rfl⟩
  | dropSenders => cases hs; exact h
  | tlsAccepted r =>
      simp only [ConnectionHandler.step] at hs
      split at hs
      · rename_i hphase
        rw [hphase] at h
        split at hs
        · cases hs
          exact h
        · cases hs
          refine ⟨h.2, ?_⟩
          rw [pastEvents, h.1]
          exact Chain.nil.stop
      · cases hs
  | setUp reserved =>
      simp only [ConnectionHandler.step] at hs
      split at hs
      · rename_i hphase
        rw [hphase] at h
        split at hs
        · rename_i s hnew
          cases hs
          refine ⟨?_, s, FramedServer.setMaxBufferSize_ok hnew, ?_⟩
          · rw [pastEvents, h.1]
            exact .nil
          · rw [h.2]
            exact .refl
        · cases hs
          refine ⟨h.2, ?_⟩
          rw [pastEvents, h.1]
          exact Chain.nil.stop
      · cases hs
  | progress choice =>
      simp only [ConnectionHandler.step] at hs
      split at hs
      · rename_i s o k hphase
        rw [hphase] at h
        obtain ⟨r, -, rfl⟩ := Option.map_eq_some_iff.mp hs
        obtain ⟨hchain, s₀, hmax, hpartial⟩ := h
        have hnext := Task.Partial.step r hpartial
        exact ⟨hchain, s₀, hmax, hnext⟩
      · cases hs
  | elapse i =>
      simp only [ConnectionHandler.step] at hs
      split at hs
      · rename_i s ts o k hphase
        rw [hphase] at h
        split at hs
        · cases hs
          obtain ⟨hchain, s₀, hmax, hpartial⟩ := h
          exact ⟨hchain, s₀, hmax, .step _ hpartial⟩
        · cases hs
      · cases hs
  | turn =>
      simp only [ConnectionHandler.step] at hs
      split at hs
      · rename_i s r hphase
        rw [hphase] at h
        cases hs
        obtain ⟨hchain, s₀, hmax, hpartial⟩ := h
        have hrun := hpartial.run .done
        rw [List.append_nil] at hrun
        rcases r with e | goesOn
        · refine ⟨rfl, ?_⟩
          rw [pastEvents_endCycle]
          exact hloop
        cases goesOn with
        | false =>
            refine ⟨rfl, ?_⟩
            rw [pastEvents_endCycle]
            exact hloop
        | true =>
            refine ⟨?_, s, (ProtocolHandler.keeps_handleNext s₀ hmax).of_run hrun, .refl⟩
            rw [pastEvents_endCycle]
            exact hchain.concat hmax hrun hpass
      · cases hs
  | wake =>
      simp only [ConnectionHandler.step] at hs
      split at hs
      · rename_i s o k hphase
        rw [hphase] at h
        split at hs
        · cases hs
          obtain ⟨hchain, s₀, hmax, hpartial⟩ := h
          refine ⟨rfl, ((ProtocolHandler.keeps_handleNext s₀ hmax).of_begun hpartial).left, ?_, ?_⟩
          · exact (pastEvents_endCycle c .dropped (.woken s)).symm ▸ hloop
          · refine hok.imp id fun hcurrent => ?_
            have hevents : c.events = c.pastEvents := by
              rw [events_eq, hcurrent, List.append_nil]
            exact ((pastEvents_endCycle c .dropped (.woken s)).trans hevents).symm ▸ hchain
        · cases hs
      · cases hs
  | borrow =>
      simp only [ConnectionHandler.step] at hs
      split at hs
      · rename_i s hphase
        rw [hphase] at h
        cases hs
        obtain ⟨hcurrent, hmax, hpast, hcase⟩ := h
        cases hv : c.shutdown.value with
        | true =>
            simp only [Cycling, if_true]
            exact ⟨hcurrent, hpast⟩
        | false =>
            rw [hv] at hcase
            simp only [Cycling]
            refine ⟨hcase.resolve_left (by simp), s, hmax, ?_⟩
            rw [hcurrent]
            exact .refl
      · cases hs
  | abort =>
      simp only [ConnectionHandler.step] at hs
      split at hs
      · rename_i hphase
        rw [hphase] at h
        cases hs
        refine ⟨h.2, ?_⟩
        rw [pastEvents, h.1]
        exact Chain.nil.stop
      · rename_i s o k hphase
        rw [hphase] at h
        split at hs
        · cases hs
          refine ⟨rfl, ?_⟩
          exact (pastEvents_endCycle c .aborted .aborted).symm ▸ hloop
        · cases hs
      · cases hs

/-! ### What the command handler has returned -/

/-- Each result is the answer to the requests before it. -/
def Faithful (handler : CommandHandler) (es : List (Net Handler).Event) : Prop :=
  ∀ before result after, es = before ++ ⟨.call .leave, result⟩ :: after →
    result = handler (entered before)

theorem Faithful.concat {e : (Net Handler).Event} (h : Faithful handler es)
    (he : ∀ result, e = ⟨.call .leave, result⟩ → result = handler (entered es)) :
    Faithful handler (es ++ [e]) := by
  intro before result after heq
  rcases List.eq_nil_or_concat after with rfl | ⟨after, e', rfl⟩
  · obtain ⟨rfl, hlast⟩ := List.append_inj' heq rfl
    exact he result (List.singleton_inj.mp hlast)
  · rw [List.concat_eq_append, ← List.cons_append, ← List.append_assoc] at heq
    exact h before result after (List.append_inj' heq rfl).1

theorem Faithful.step (h : Faithful handler c.events)
    (hs : ConnectionHandler.step handler maxBufferSize c a = some c') :
    Faithful handler c'.events := by
  have ended (fate : Fate) (phase : Phase) : Faithful handler (c.endCycle fate phase).events := by
    rw [events_eq, pastEvents_endCycle]
    exact (List.append_nil c.events).symm ▸ h
  have advanced {s : FramedServer} {o : (Net Handler).Op}
      {k : (Net Handler).Reply o → Task (Net Handler) FramedServer (Except Error Bool)}
      {r : (Net Handler).Reply o}
      (hr : ∀ result, (⟨o, r⟩ : (Net Handler).Event) = ⟨.call .leave, result⟩ →
        result = handler c.handled) : Faithful handler (c.advance o k r).events := by
    have hevents : (c.advance o k r).events = c.events ++ [⟨o, r⟩] := by simp [events, advance]
    rw [hevents]
    exact h.concat hr
  cases a with
  | progress choice =>
      simp only [ConnectionHandler.step] at hs
      split at hs
      · rename_i s o k hphase
        obtain ⟨r, hanswer, rfl⟩ := Option.map_eq_some_iff.mp hs
        refine advanced (s := s) fun result heq => ?_
        cases heq
        cases choice with
        | ready n =>
            cases hanswer
            rfl
        | fail e => cases hanswer
      · cases hs
  | elapse i =>
      simp only [ConnectionHandler.step] at hs
      split at hs
      · rename_i s ts o k hphase
        split at hs
        · cases hs
          exact advanced (s := s) fun result hanswer => by cases hanswer
        · cases hs
      · cases hs
  | turn =>
      simp only [ConnectionHandler.step] at hs
      split at hs
      · cases hs
        exact ended _ _
      · cases hs
  | wake =>
      simp only [ConnectionHandler.step] at hs
      split at hs
      · rename_i s o k hphase
        split at hs
        · cases hs
          exact ended .dropped (.woken s)
        · cases hs
      · cases hs
  | abort =>
      simp only [ConnectionHandler.step] at hs
      split at hs
      · cases hs
        exact h
      · split at hs
        · cases hs
          exact ended _ _
        · cases hs
      · cases hs
  | deliver bytes => cases hs; exact h
  | close => cases hs; exact h
  | notify value => cases hs; exact h
  | dropSenders => cases hs; exact h
  | tlsAccepted r =>
      simp only [ConnectionHandler.step] at hs
      split at hs
      · split at hs <;> cases hs <;> exact h
      · cases hs
  | setUp reserved =>
      simp only [ConnectionHandler.step] at hs
      split at hs
      · split at hs <;> cases hs <;> exact h
      · cases hs
  | borrow =>
      simp only [ConnectionHandler.step] at hs
      split at hs
      · cases hs
        exact h
      · cases hs

theorem events_of_fresh (h : Fresh c) : c.events = [] := by
  obtain ⟨-, -, -, hpast, hcurrent⟩ := h
  rw [events, hpast, hcurrent]
  rfl

theorem faithful_of_fresh (h : Fresh c) : Faithful handler c.events := by
  rw [events_of_fresh h]
  intro before result after heq
  simp at heq

/-- The cycles of a connection, and the results of its command handler in them. -/
theorem cycling_of_reachable {ok : ConnectionHandler → Act → Prop}
    (h : (machine handler maxBufferSize).Reachable ok c)
    (hok : ∀ c a, ok c a → Heeds c a ∧ Passes P c a) :
    Cycling P (sizeLimit maxBufferSize) c ∧ Faithful handler c.events := by
  refine h.invariant
    (fun c => Cycling P (sizeLimit maxBufferSize) c ∧ Faithful handler c.events)
    (fun c hc => ⟨cycling_of_fresh hc, faithful_of_fresh hc⟩) ?_
  intro c a c' hc hact hs
  obtain ⟨hheeds, hpass⟩ := hok c a hact
  exact ⟨hc.1.step hheeds hpass hs, hc.2.step hs⟩

/-- What a connection does is a number of cycles, of which only the last one may be cut
off, and the results in them are those of its command handler. -/
theorem loop_of_reachable {ok : ConnectionHandler → Act → Prop}
    (h : (machine handler maxBufferSize).Reachable ok c)
    (hok : ∀ c a, ok c a → Heeds c a ∧ Passes P c a) :
    Loop P (sizeLimit maxBufferSize) c.events ∧ Faithful handler c.events :=
  (cycling_of_reachable h hok).imp_left Cycling.loop

end ConnectionHandler

end Wagonet
