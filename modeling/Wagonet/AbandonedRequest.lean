import Wagonet.ExchangeRuns
import Wagonet.WholeExchanges

/-!
A request whose future is dropped in the middle.

Only a failed exchange takes its connection out of the cell. One that is dropped
leaves it there, with a part of the request on it, for the next call to use; where
this does not happen, what is in the cell has seen whole exchanges only.
-/

namespace Wagonet

open Library

namespace ClientRuntime

variable {K : ClientKind} {s : ClientRuntime}

/-- A request that is whole has sent all its frames. -/
theorem Segment.Whole.request_length {y : Segment} (h : y.Whole K) (hy : y.owner = .client) :
    8 < (sent y.events).length := by
  obtain ⟨hkind, buffer, buffer', response, hrun⟩ := h
  rw [OwnKind, hy] at hkind
  cases hx : y.exchange with
  | ping => simp [hx, Exchange.isPing] at hkind
  | request command data commandHasAnswer m =>
      rw [hx] at hrun
      obtain ⟨-, -, ⟨-, hsent, -⟩ | ⟨-, e, hr⟩⟩ := ClientKind.request_run hrun
      · have hopening : (ClientExchange.opening command data).length = 8 := rfl
        rw [hsent]
        simp only [List.length_append, hopening, List.length_singleton]
        omega
      · cases hr

/-- No future of the caller is dropped once it has sent a byte of a request, before the
exchange ends. -/
def SparesRequests (s : ClientRuntime) : Act → Prop
  | .cancel => ∀ x, s.ongoing .client = some x → sent x.events = []
  | _ => True

/-- The exchange was begun and has not come to a good end, and it is not a ping whose task
was aborted. -/
def Segment.Spoilt (y : Segment) : Prop :=
  sent y.events ≠ [] ∧ y.Failed ∧ ∀ t, y.owner = .ping t → y.fate ≠ .dropped

theorem sparesRequests_tells {S : SharedStream} {a : Act} {l : SharedStream.Label}
    (h : Refines K s S) (hok : SparesRequests s a) (hl : a.Tells s l) :
    ∀ g x, l = .drop g → S.running g = some x → ¬(x.ended g .dropped).Spoilt := by
  rintro g x rfl hx ⟨hsent, -, hping⟩
  rw [h.running] at hx
  cases a with
  | cancel =>
      cases hl
      exact hsent (hok x hx)
  | drop t =>
      obtain ⟨-, hl⟩ := hl
      cases hl
      exact hping t rfl rfl
  | client choice =>
      obtain ⟨th, -, hth⟩ := hl
      cases hth
  | ping t choice => cases hl
  | start op => cases hl
  | _ => cases hl

/-- If no request is dropped in the middle, then the connection in the cell has seen whole
exchanges only, apart from pings whose task was aborted; and a connection is not used
after a request on it that has not come to a good end. -/
theorem dropped_request_spares (h : (machine K).Reachable SparesRequests s) :
    (∀ c, s.world.cell = some c → s.world.holder .stream = none →
        ∀ y ∈ s.world.record c, sent y.events ≠ [] →
          y.Whole K ∨ ∃ t, y.owner = .ping t ∧ y.fate = .dropped) ∧
      ∀ c, (∀ y ∈ (s.world.record c).dropLast, y.owner = .client → sent y.events ≠ [] →
          y.Whole K) ∧
        ∀ g x, s.ongoing g = some x → x.conn = c →
          ∀ y ∈ s.world.record c, y.owner = .client → sent y.events ≠ [] → y.Whole K := by
  obtain ⟨hvalid, -⟩ := valid_of_reachable h
  obtain ⟨S, hS, hR⟩ := refines_of_reachable
    (fun S l => ∀ g x, l = .drop g → S.running g = some x → ¬(x.ended g .dropped).Spoilt)
    (fun s S a l hR hok hl => sparesRequests_tells hR hok hl) h
  obtain ⟨hsound, hclean, hlast⟩ := SharedStream.clean_of_reachable Segment.Spoilt
    (fun y r hy hspoilt => hspoilt.2.1 r hy) (fun S g x hok hx => hok g x rfl hx) hS
  have hwhole : ∀ c, ∀ y ∈ s.world.record c, sent y.events ≠ [] → ¬y.Spoilt →
      y.Whole K ∨ ∃ t, y.owner = .ping t ∧ y.fate = .dropped := by
    intro c y hy hsent hspoilt
    by_contra hno
    rw [not_or, not_exists] at hno
    refine hspoilt ⟨hsent, fun r hr => hno.1 ((hvalid c y hy).whole hr), fun t ht hfate => ?_⟩
    exact hno.2 t ⟨ht, hfate⟩
  have hrequest : ∀ c, ∀ y ∈ s.world.record c, y.owner = .client → sent y.events ≠ [] →
      ¬y.Spoilt → y.Whole K := by
    intro c y hy howner hsent hspoilt
    rcases hwhole c y hy hsent hspoilt with hy | ⟨t, ht, -⟩
    · exact hy
    · rw [howner] at ht
      cases ht
  refine ⟨fun c hcell hfree y hy hsent => hwhole c y hy hsent fun hspoilt => ?_,
    fun c => ⟨fun y hy howner hsent => ?_, ?_⟩⟩
  · rw [← hR.shows.record] at hy
    rw [← hR.shows.cell] at hcell
    rw [← hR.shows.owner] at hfree
    obtain ⟨g, hg⟩ := hclean c y hcell hy hspoilt
    have howner := hsound.exclusive.owner_of_hold (g := g) (by rw [hg]; nofun)
    rw [hfree] at howner
    cases howner
  · rw [← hR.shows.record] at hy
    exact hrequest c y (hR.shows.record ▸ List.dropLast_subset _ hy) howner hsent
      (hlast.before c y hy)
  · rintro g x hx rfl y hy howner hsent
    rw [← hR.running] at hx
    exact hrequest x.conn y hy howner hsent
      (hlast.running g x hx y (by rw [hR.shows.record]; exact hy))

/-- A request that waits for its first byte to be written. -/
def requesting : List Act := connecting ++ [.start (.handleMessage 7 [])] ++ clientGoes 7

/-- The future is dropped before anything was written. -/
theorem dropped_request_spares_early :
    ∃ s, (machine .tl).run new (requesting ++ [.cancel]) = some s ∧ s.world.cell = some 0 ∧
      ∀ y ∈ s.world.record 0, sent y.events ≠ [] →
        y.Whole .tl ∨ ∃ t, y.owner = .ping t ∧ y.fate = .dropped := by
  obtain ⟨s, hs, hproj⟩ := Option.map_eq_some_iff.mp
    (show ((machine .tl).run new requesting).map
      (fun s => (s.ongoing .client).map (sent ·.events)) = some (some []) by decide +kernel)
  obtain ⟨s', hs', hproj'⟩ := Option.map_eq_some_iff.mp
    (show ((machine .tl).run new (requesting ++ [.cancel])).map
      (fun s => (s.world.cell, s.world.holder .stream)) = some (some 0, none) by decide +kernel)
  simp only [Prod.mk.injEq] at hproj'
  have hdrops : ∀ a ∈ requesting, a.dropsNone = true := by decide
  have hreach : (machine .tl).Reachable SparesRequests s :=
    Machine.Reachable.run (.init fresh_new)
      (fun a ha t => by have := hdrops a ha; cases a <;> trivial) hs
  have hcancel : SparesRequests s .cancel := by
    intro x hx
    rw [hx] at hproj
    exact Option.some.inj hproj
  have hs'' := hs'
  rw [Machine.run_append, hs, Option.bind_some, Machine.run_cons] at hs''
  obtain ⟨t, ht, hnil⟩ := Option.bind_eq_some_iff.mp hs''
  cases hnil
  exact ⟨s', hs', hproj'.1,
    (dropped_request_spares (hreach.step hcancel ht)).1 0 hproj'.1 hproj'.2⟩

/-- A request that is dropped after five bytes of its header leaves the connection for the
next call. -/
theorem dropped_request_spoils :
    ¬∀ (K : ClientKind) (s : ClientRuntime), (machine K).Reachable Machine.anyStep s →
      ∀ c, s.world.cell = some c → s.world.holder .stream = none →
        ∀ y ∈ s.world.record c, y.owner = .client → sent y.events ≠ [] → y.Whole K := by
  intro h
  obtain ⟨s, hs, hproj⟩ := Option.map_eq_some_iff.mp
    (show ((machine .tl).run new (requesting ++ [.client (.written 5), .cancel])).map
      (fun s => (s.world.cell, s.world.holder .stream,
        (s.world.record 0).map fun y => (y.owner, sent y.events))) =
        some (some 0, none, [(.client, [0, 0, 0, 7, 0])]) by decide +kernel)
  simp only [Prod.mk.injEq] at hproj
  obtain ⟨hcell, hfree, hrecord⟩ := hproj
  have hreach : (machine .tl).Reachable Machine.anyStep s :=
    Machine.Reachable.run (.init fresh_new) (fun _ _ _ => trivial) hs
  obtain ⟨y, hy, howner⟩ := List.mem_map.mp
    (show (.client, [0, 0, 0, 7, 0]) ∈
      (s.world.record 0).map fun y => (y.owner, sent y.events) by rw [hrecord]; simp)
  simp only [Prod.mk.injEq] at howner
  obtain ⟨howner, hsent⟩ := howner
  have hlen := (h .tl s hreach 0 hcell hfree y hy howner (by rw [hsent]; nofun)).request_length
    howner
  rw [hsent] at hlen
  exact absurd hlen (by decide)

end ClientRuntime

end Wagonet
