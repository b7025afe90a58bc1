import Wagonet.ClientUse

/-!
The buffers of the transports are reserved once.

`set_max_buffer_size` reserves what the limit allows, and nothing that is read or
written later asks the buffer for more: the frames of the protocol have at most eight
bytes, and the size of a payload is compared with the limit before the buffer is
resized. So no peer makes a buffer grow.
-/

namespace Wagonet

open Library

variable {C : Interface}

/-! ### The exchange of a client -/

namespace ClientExchange

variable {ε : Type} {E : ExchangeErrors ε} {cap n : Nat}

theorem within_sendRequestHeaderLocked {command dataSize : UInt32} (hn : n ≤ cap) (h8 : 8 ≤ n) :
    (sendRequestHeaderLocked E command dataSize : Async (Net C) ByteVec ε Unit).Keeps
      (ByteVec.Within cap n) := by
  refine Async.Keeps.modify_twice (fun v hv => hv.clear_extend hn h8) ?_
  refine Async.Keeps.get.bind fun buffer => (Async.Keeps.within .writeLoop).bind fun _ => ?_
  exact (Async.Keeps.mapError .flushStream).bind fun _ => .modify fun v hv => hv.clear

theorem within_sendResponseHeaderLocked {status : UInt8} {dataSize : UInt32} (hn : n ≤ cap)
    (h8 : 8 ≤ n) :
    (sendResponseHeaderLocked E status dataSize : Async (Net C) ByteVec ε Unit).Keeps
      (ByteVec.Within cap n) := by
  refine Async.Keeps.modify_twice (fun v hv => hv.clear_extend hn ?_) ?_
  · cases dataSize == 0 with
    | true => exact (Nat.le_trans (by decide) h8 : 1 ≤ n)
    | false => exact (Nat.le_trans (by decide) h8 : 5 ≤ n)
  refine Async.Keeps.get.bind fun buffer => (Async.Keeps.within .writeLoop).bind fun _ => ?_
  exact (Async.Keeps.mapError .flushStream).bind fun _ => .modify fun v hv => hv.clear

theorem encodedLen_le (isDefault commandHasAnswer : Bool) :
    ResponseHeader.encodedLen isDefault commandHasAnswer ≤ 8 := by
  cases isDefault <;> cases commandHasAnswer <;> decide

theorem within_receiveResponseHeaderLocked {isDefault commandHasAnswer : Bool} {m : Nat}
    (hn : n ≤ cap) (h8 : 8 ≤ n) :
    (receiveResponseHeaderLocked E isDefault commandHasAnswer m :
      Async (Net C) ByteVec ε ResponseHeader).Keeps (ByteVec.Within cap n) := by
  have hresize : ResponseHeader.encodedLen isDefault commandHasAnswer ≤ n :=
    Nat.le_trans (encodedLen_le _ _) h8
  refine (Async.Keeps.modify fun v hv => hv.resize hn hresize).bind fun _ => ?_
  refine (Async.Keeps.within (.readLoop fun bs v hv => hv.overwrite bs)).bind fun _ => ?_
  refine Async.Keeps.get.bind fun buffer => (Async.Keeps.ofExcept _).bind fun header => ?_
  exact (Async.Keeps.modify fun v hv => hv.clear).bind fun _ => .pure _

theorem within_sendMessageLocked {command : UInt32} {data : List UInt8} {commandHasAnswer : Bool}
    {m : Nat} (hn : n ≤ cap) (h8 : 8 ≤ n) :
    (sendMessageLocked E command data commandHasAnswer m : Async (Net C) ByteVec ε Unit).Keeps
      (ByteVec.Within cap n) := by
  refine (within_sendRequestHeaderLocked hn h8).bind fun _ => ?_
  refine (within_receiveResponseHeaderLocked hn h8).bind fun ackHeader => ?_
  split
  · exact .fail _
  · refine (Async.Keeps.within .writeLoop).bind fun _ => ?_
    exact (Async.Keeps.mapError .flushStream).bind fun _ => .modify fun v hv => hv.clear

/-- The buffer is resized after the size was compared with the limit. -/
theorem within_receiveMessageLocked {commandHasAnswer : Bool} {m : Nat} (hn : n ≤ cap)
    (h8 : 8 ≤ n) (hm : m ≤ n) :
    (receiveMessageLocked E commandHasAnswer m : Async (Net C) ByteVec ε _).Keeps
      (ByteVec.Within cap n) := by
  refine (within_receiveResponseHeaderLocked hn h8).bind fun resHeader => ?_
  refine (within_sendResponseHeaderLocked hn h8).bind fun _ => ?_
  split
  · exact .fail _
  split
  · exact .fail _
  split
  · exact (Async.Keeps.modify fun v hv => hv.clear).bind fun _ => .pure _
  · rename_i hfits _
    have hresize : resHeader.dataSize.toNat ≤ n := Nat.le_trans (Nat.not_lt.mp hfits) hm
    refine (Async.Keeps.modify fun v hv => hv.resize hn hresize).bind fun _ => ?_
    refine (Async.Keeps.within (.readLoop fun bs v hv => hv.overwrite bs)).bind fun _ => ?_
    exact Async.Keeps.get.bind fun buffer => .pure _

theorem within_exchange {command : UInt32} {data : List UInt8} {commandHasAnswer : Bool} {m : Nat}
    (hn : n ≤ cap) (h8 : 8 ≤ n) (hm : m ≤ n) :
    (exchange E command data commandHasAnswer m : Async (Net C) ByteVec ε _).Keeps
      (ByteVec.Within cap n) :=
  (within_sendMessageLocked hn h8).bind fun _ => within_receiveMessageLocked hn h8 hm

end ClientExchange

/-! ### The transports of the server -/

/-- What the limit allows was reserved, and no more was asked for since. -/
def Reserved (maxBufferSize : Nat) (buffer : ByteVec) : Prop :=
  max maxBufferSize 8 ≤ buffer.capacity ∧ buffer.asked ≤ max maxBufferSize 8

theorem Reserved.within {m : Nat} {buffer : ByteVec} (h : Reserved m buffer) :
    buffer.Within buffer.capacity (max m 8) := ⟨rfl, h.2⟩

theorem Reserved.of_within {m cap : Nat} {buffer : ByteVec} (hm : max m 8 ≤ cap)
    (h : buffer.Within cap (max m 8)) : Reserved m buffer := ⟨h.capacity ▸ hm, h.asked⟩

theorem reserved_reserve {m m' : Nat} {buffer : ByteVec} (h : Reserved m buffer) :
    Reserved m' (buffer.reserve (m' - buffer.bytes.length)) := by
  refine ⟨Nat.max_le.mpr ⟨?_, ?_⟩, Nat.zero_le _⟩
  · have hroom : m' ≤ buffer.bytes.length + (m' - buffer.bytes.length) := by omega
    exact Nat.le_trans hroom (Nat.le_max_right _ _)
  · exact Nat.le_trans (Nat.le_trans (Nat.le_max_right m 8) h.1) (Nat.le_max_left _ _)

theorem reserved_withCapacity : Reserved FramedServer.defaultMaxBufferSize
    (.withCapacity FramedServer.defaultMaxBufferSize) := ⟨by decide, Nat.zero_le _⟩

namespace FramedServer

variable {s s' : FramedServer} {cap m : Nat}

/-- The limit and the capacity are these, and no more than the limit allows was asked for. -/
structure Fixed (cap m : Nat) (s : FramedServer) : Prop where
  limit : s.maxBufferSize = m
  within : s.buffer.Within cap (max m 8)

theorem fixed_of_reserved (h : Reserved s.maxBufferSize s.buffer) :
    s.Fixed s.buffer.capacity s.maxBufferSize := ⟨rfl, h.within⟩

theorem Fixed.clearBuffer (h : s.Fixed cap m) : s.clearBuffer.Fixed cap m :=
  ⟨h.limit, h.within.clear⟩

theorem Fixed.fill (h : s.Fixed cap m) (bs : List UInt8) : (fill bs s).Fixed cap m :=
  ⟨h.limit, h.within.overwrite bs⟩

theorem Fixed.resizeBuffer (h : s.Fixed cap m) (hm : max m 8 ≤ cap) {n : Nat} (hn : n ≤ max m 8) :
    (s.resizeBuffer n).Fixed cap m := ⟨h.limit, h.within.resize hm hn⟩

theorem fixed_sendResponseHeader {status : UInt8} {dataSize : UInt32} {isDefault : Bool}
    {timer : Timer} (hm : max m 8 ≤ cap) :
    (sendResponseHeader status dataSize isDefault timer :
      Async (Net C) FramedServer Error Unit).Keeps (Fixed cap m) := by
  refine Async.Keeps.modify_twice (fun s hs => ⟨hs.limit, hs.within.clear_extend hm ?_⟩) ?_
  · cases isDefault with
    | true => exact (Nat.le_trans (by decide) (Nat.le_max_right m 8) : 1 ≤ max m 8)
    | false => exact (Nat.le_trans (by decide) (Nat.le_max_right m 8) : 5 ≤ max m 8)
  refine Async.Keeps.get.bind fun s => (Async.Keeps.within .writeLoop).bind fun _ => ?_
  exact (Async.Keeps.mapError .flushStream).bind fun _ => .modify fun s hs => hs.clearBuffer

theorem fixed_readCommand (hm : max m 8 ≤ cap) :
    (readCommand : Async (Net C) FramedServer Error _).Keeps (Fixed cap m) := by
  refine (Async.Keeps.modify fun s hs => hs.resizeBuffer hm (Nat.le_max_right m 8)).bind fun _ => ?_
  refine (Async.Keeps.within (.readLoop fun bs s hs => hs.fill bs)).bind fun _ => ?_
  refine Async.Keeps.get.bind fun s => (Async.Keeps.ofExcept _).bind fun header => ?_
  refine (Async.Keeps.modify fun s hs => hs.clearBuffer).bind fun _ => ?_
  dsimp only
  split
  · split
    · exact (fixed_sendResponseHeader hm).bind fun _ => .fail _
    · exact (fixed_sendResponseHeader hm).bind fun _ => .pure _
  · split
    · exact (fixed_sendResponseHeader hm).bind fun _ => .fail _
    · exact (fixed_sendResponseHeader hm).bind fun _ => .pure _

theorem fixed_receiveResponseHeader (hm : max m 8 ≤ cap) :
    (receiveResponseHeader true : Async (Net C) FramedServer Error _).Keeps (Fixed cap m) := by
  have hresize : ResponseHeader.encodedLen true true ≤ max m 8 :=
    Nat.le_trans (ClientExchange.encodedLen_le _ _) (Nat.le_max_right m 8)
  refine (Async.Keeps.modify fun s hs => hs.resizeBuffer hm hresize).bind fun _ => ?_
  refine (Async.Keeps.within (.readLoop fun bs s hs => hs.fill bs)).bind fun _ => ?_
  refine Async.Keeps.get.bind fun s => (Async.Keeps.ofExcept _).bind fun header => ?_
  exact (Async.Keeps.modify fun s hs => hs.clearBuffer).bind fun _ => .pure _

/-- The buffer is resized after the size was compared with the limit. -/
theorem fixed_receiveData {bufSize : Nat} (hm : max m 8 ≤ cap) :
    (receiveData bufSize : Async (Net C) FramedServer Error _).Keeps (Fixed cap m) := by
  intro s hs
  rw [receiveData, Async.get_bind_apply]
  split
  · exact hs
  · rename_i hfits
    rw [hs.limit] at hfits
    have hresize : bufSize ≤ max m 8 := Nat.le_trans (Nat.not_lt.mp hfits) (Nat.le_max_left _ _)
    rw [Async.modify_bind_apply]
    refine ((Async.Keeps.within (.readLoop fun bs s hs => hs.fill bs)).bind fun _ => ?_) _
      (hs.resizeBuffer hm hresize)
    refine Async.Keeps.get.bind fun s => ?_
    exact (Async.Keeps.modify fun s hs => hs.clearBuffer).bind fun _ => .pure _

theorem fixed_sendData {status : UInt8} {buf : Option (List UInt8)} (hm : max m 8 ≤ cap) :
    (sendData status buf : Async (Net C) FramedServer Error Unit).Keeps (Fixed cap m) := by
  have hend : (do Async.mapError .io flush; Async.modify clearBuffer :
      Async (Net C) FramedServer Error Unit).Keeps (Fixed cap m) :=
    (Async.Keeps.mapError .flushStream).bind fun _ => .modify fun s hs => hs.clearBuffer
  refine (fixed_sendResponseHeader hm).bind fun _ => ?_
  refine (fixed_receiveResponseHeader hm).bind fun resHeader => ?_
  split
  · exact .fail _
  · cases buf with
    | none => exact hend
    | some buf => exact (Async.Keeps.within .writeLoop).bind fun _ => hend

/-- The states of a transport, over TCP as over TLS: `set_max_buffer_size` may be called,
and an operation begins, goes on and ends, or is dropped where it awaits something. -/
inductive Reached : FramedServer → Prop
  | new : Reached .new
  | setMaxBufferSize {s : FramedServer} {maxBufferSize : Nat} {reserved : Bool} :
      Reached s → Reached (s.setMaxBufferSize maxBufferSize reserved).2
  | readCommand {s : FramedServer} {es : List (Net Interface.empty).Event}
      {t : Task (Net Interface.empty) FramedServer (Except Error (Option (UInt32 × Nat)))} :
      Reached s → (FramedServer.readCommand s).Partial es t → Reached t.left
  | receiveData {s : FramedServer} {bufSize : Nat} {es : List (Net Interface.empty).Event}
      {t : Task (Net Interface.empty) FramedServer (Except Error (List UInt8))} :
      Reached s → (FramedServer.receiveData bufSize s).Partial es t → Reached t.left
  | sendData {s : FramedServer} {status : UInt8} {buf : Option (List UInt8)}
      {es : List (Net Interface.empty).Event}
      {t : Task (Net Interface.empty) FramedServer (Except Error Unit)} :
      Reached s → (FramedServer.sendData status buf s).Partial es t → Reached t.left

/-- An operation that leaves the limit and the capacity as they are. -/
theorem fixed_of_begun {α : Type} {m : Async (Net Interface.empty) FramedServer Error α}
    {es : List (Net Interface.empty).Event}
    {t : Task (Net Interface.empty) FramedServer (Except Error α)}
    (hkeeps : max s.maxBufferSize 8 ≤ s.buffer.capacity →
      m.Keeps (Fixed s.buffer.capacity s.maxBufferSize))
    (h : Reserved s.maxBufferSize s.buffer) (ht : (m s).Partial es t) :
    t.left.Fixed s.buffer.capacity s.maxBufferSize :=
  ((hkeeps h.1 s (fixed_of_reserved h)).of_begun ht).left

theorem reserved_of_fixed (hm : max m 8 ≤ cap) (h : s.Fixed cap m) :
    Reserved s.maxBufferSize s.buffer := by
  rw [h.limit]
  exact .of_within hm h.within

theorem reserved_setMaxBufferSize {maxBufferSize : Nat} {reserved : Bool}
    (h : Reserved s.maxBufferSize s.buffer) :
    Reserved (s.setMaxBufferSize maxBufferSize reserved).2.maxBufferSize
      (s.setMaxBufferSize maxBufferSize reserved).2.buffer := by
  cases reserved with
  | true => exact reserved_reserve h
  | false => exact h

/-- A reservation that is not granted leaves the limit and the buffer as they are. -/
theorem setMaxBufferSize_error {maxBufferSize : Nat} {reserved : Bool} {e : Error}
    (h : (s.setMaxBufferSize maxBufferSize reserved).1 = .error e) :
    (s.setMaxBufferSize maxBufferSize reserved).2 = s := by
  cases reserved with
  | true => cases h
  | false => rfl

theorem reserved_of_reached (h : Reached s) : Reserved s.maxBufferSize s.buffer := by
  induction h with
  | new => exact reserved_withCapacity
  | setMaxBufferSize _ ih => exact reserved_setMaxBufferSize ih
  | readCommand _ ht ih => exact reserved_of_fixed ih.1 (fixed_of_begun fixed_readCommand ih ht)
  | receiveData _ ht ih => exact reserved_of_fixed ih.1 (fixed_of_begun fixed_receiveData ih ht)
  | sendData _ ht ih => exact reserved_of_fixed ih.1 (fixed_of_begun fixed_sendData ih ht)

end FramedServer

/-! ### The operations of a client -/

namespace ClientFields

/-- The limit and the capacity are these, and no more than the limit allows was asked for. -/
structure Fixed (cap m : Nat) (fields : ClientFields) : Prop where
  limit : fields.maxBufferSize = m
  within : fields.buffer.Within cap (max m 8)

theorem setMaxBufferSize_error {bufferSize : Nat} {reserved : Bool} {fields : ClientFields}
    {e : Error} (h : (fields.setMaxBufferSize bufferSize reserved).1 = .error e) :
    (fields.setMaxBufferSize bufferSize reserved).2 = fields := by
  cases reserved with
  | true => cases h
  | false => rfl

end ClientFields

/-- An exchange that has ended gives back such a buffer. -/
def GivesBack (cap m : Nat) : (o : ClientIO.Op) → Interface.Reply ClientIO o → Prop
  | .wait _ (.exchange _ _ _), .inr (buffer, _) => buffer.Within cap (max m 8)
  | _, _ => True

section

variable {K : ClientKind} {cap m : Nat}

theorem maintains_handleMessage {command : UInt32} {requestData : List UInt8} :
    (Client.handleMessage K command requestData).Maintains (GivesBack cap m)
      (ClientFields.Fixed cap m) := by
  refine Client.keeps_ensureConnected.maintains.bind fun _ => ?_
  refine (Async.Keeps.wait _).maintains.bind fun _ => ?_
  refine (Async.Keeps.wait _).maintains.bind fun _ => ?_
  refine (Async.Keeps.call _).maintains.bind fun v => ?_
  match v with
  | none =>
      exact ((Async.Keeps.call _).bind fun _ =>
        (Async.Keeps.call _).bind fun _ => .fail _).maintains
  | some c =>
      intro fields hfields
      dsimp only
      rw [Async.get_bind_apply]
      refine Async.maintains_wait_bind hfields fun r hr => ?_
      obtain ⟨buffer, result⟩ := r
      have hafter : ClientFields.Fixed cap m { fields with buffer := buffer } := ⟨hfields.limit, hr⟩
      rw [Async.modify_bind_apply]
      refine Async.Keeps.maintains ?_ _ hafter
      have hend : (do
          Async.call (C := ClientCalls) (.unlock .stream)
          Async.call (C := ClientCalls) (.unlock .inFlight)
          Async.ofExcept result : Async ClientIO ClientFields Error (List UInt8)).Keeps
            (ClientFields.Fixed cap m) :=
        (Async.Keeps.call _).bind fun _ => (Async.Keeps.call _).bind fun _ => .ofExcept _
      cases result with
      | error e =>
          exact (Async.Keeps.call _).bind fun _ => PingState.keeps_stopPingTask.bind fun _ => hend
      | ok response => exact keeps_withLock.bind fun _ => hend

theorem fixed_setKeepAlive {enabled : Bool} :
    (Client.setKeepAlive enabled).Keeps (ClientFields.Fixed cap m) := by
  have hend : (do
      Async.modify ({ · with keepAlive := enabled })
      Async.wait (A := ClientAwaits) (.lock .config)
      let config ← Async.call (C := ClientCalls) .loadConfig
      Async.call (C := ClientCalls)
        (.setConfig { config with enabled := enabled && decide (config.interval > 0) })
      Async.call (C := ClientCalls) (.unlock .config) :
        Async ClientIO ClientFields Error Unit).Keeps (ClientFields.Fixed cap m) := by
    refine (Async.Keeps.modify fun fields h => ⟨h.limit, h.within⟩).bind fun _ => ?_
    refine (Async.Keeps.wait _).bind fun _ => (Async.Keeps.call _).bind fun config => ?_
    exact (Async.Keeps.call _).bind fun _ => .call _
  refine Async.Keeps.get.bind fun self => ?_
  split
  · exact PingState.keeps_stopPingTask.bind fun _ => keeps_withLock.bind fun _ => hend
  · exact hend

theorem fixed_setTimeoutConfig {timeoutConfig : TimeoutConfig} :
    (Client.setTimeoutConfig timeoutConfig).Keeps (ClientFields.Fixed cap m) := by
  refine (Async.Keeps.ofExcept _).bind fun _ => Async.Keeps.get.bind fun self => ?_
  refine (Async.Keeps.wait _).bind fun _ => (Async.Keeps.call _).bind fun _ => ?_
  refine keeps_withLock.bind fun _ => ?_
  exact (Async.Keeps.modify fun fields h => ⟨h.limit, h.within⟩).bind fun _ => .call _

/-- Every operation leaves the limit and the capacity as they are, if its exchange does. -/
theorem maintains_program (op : ClientRuntime.ClientOp) :
    (op.program K).Maintains (GivesBack cap m) (ClientFields.Fixed cap m) := by
  cases op with
  | connect => exact (Client.keeps_connect.bind fun _ => .pure _).maintains
  | handleMessage command requestData => exact maintains_handleMessage
  | disconnect => exact (Client.keeps_disconnect.bind fun _ => .pure _).maintains
  | setKeepAlive enabled => exact (fixed_setKeepAlive.bind fun _ => .pure _).maintains
  | setTimeoutConfig timeoutConfig => exact (fixed_setTimeoutConfig.bind fun _ => .pure _).maintains

theorem givesBack_of_not_exchange {ts : List Timer} {a : ClientAwait} {r : Fin ts.length ⊕ a.Reply}
    (ha : a.isExchange = false) : GivesBack cap m (.wait ts a) r := by
  cases a with
  | exchange c x buffer => cases ha
  | _ => trivial

/-- The exchange of a request stays within its buffer. -/
theorem within_request {command : UInt32} {data : List UInt8} {answer : Bool}
    (hm : max m 8 ≤ cap) :
    (K.program (.request command data answer m)).Keeps (ByteVec.Within cap (max m 8)) := by
  have h8 : 8 ≤ max m 8 := Nat.le_max_right m 8
  have hmax : m ≤ max m 8 := Nat.le_max_left m 8
  cases K with
  | tl => exact ClientExchange.within_exchange hm h8 hmax
  | tls domain acceptInvalidCerts =>
      exact Async.Keeps.mapError (ClientExchange.within_exchange hm h8 hmax)

end

namespace ClientRuntime

variable {K : ClientKind} {s s' : ClientRuntime} {loc loc' : Agent → Settings} {a : Act}
  {cap m : Nat} {th : Thread ClientFields (Except Error (List UInt8))}

/-- The fields as they are now; an operation that is under way has them. -/
def current (s : ClientRuntime) : ClientFields :=
  match s.op with
  | none => s.fields
  | some th => fieldsLeft th

/-- Between two operations and in each the buffer has this capacity, which is enough for
the limit. -/
structure Held (cap m : Nat) (s : ClientRuntime) : Prop where
  room : max m 8 ≤ cap
  fields : s.fields.Fixed cap m
  task : ∀ th, s.op = some th →
    th.task.Maintains (GivesBack cap m) (ClientFields.Fixed cap m)

namespace Held

theorem running (h : Held cap m s) (hobeyed : (settingsRegime K).Obeyed s loc)
    (hop : s.op = some th) {run : Running} (hrun : th.running = some run) :
    run.task.Leaves (ByteVec.Within cap (max m 8)) := by
  obtain ⟨hth, op, -, hobeys⟩ := hobeyed.client th hop
  obtain ⟨self, ts, buffer, k, htask, hpartial⟩ := hth run hrun
  have hself := h.task th hop
  rw [htask] at hobeys hself
  obtain ⟨⟨hagrees, hbuffer, command, data, hx⟩, -⟩ := hobeys
  have hfixed : self.Fixed cap m := hself.1
  rw [hx, ← hagrees.maxBufferSize, hfixed.limit, hbuffer, ← hagrees.buffer] at hpartial
  exact (within_request h.room _ hfixed.within).of_begun hpartial

/-- What the operation would leave behind. -/
theorem fieldsLeft (h : Held cap m s) (hobeyed : (settingsRegime K).Obeyed s loc)
    (hop : s.op = some th) : (fieldsLeft th).Fixed cap m := by
  have hleft := (h.task th hop).left
  rw [ClientRuntime.fieldsLeft]
  split
  · exact hleft
  · rename_i run hrun
    exact ⟨hleft.limit, (h.running hobeyed hop hrun).left⟩

theorem current (h : Held cap m s) (hobeyed : (settingsRegime K).Obeyed s loc) :
    s.current.Fixed cap m := by
  rw [ClientRuntime.current]
  split
  · exact h.fields
  · rename_i th hop
    exact h.fieldsLeft hobeyed hop

/-- The next step of the operation. -/
theorem move {D : Discipline ClientAwaits ClientCalls Settings ClientFields} {w w' : World}
    {q q' : Settings} {choice : Choice} {th' : Thread ClientFields (Except Error (List UInt8))}
    (h : th.task.Maintains (GivesBack cap m) (ClientFields.Fixed cap m))
    (hrunning : ∀ run, th.running = some run → run.task.Leaves (ByteVec.Within cap (max m 8)))
    (hm : th.Moves D K .client w q choice w' th' q') :
    th'.task.Maintains (GivesBack cap m) (ClientFields.Fixed cap m) := by
  cases hm with
  | call => exact h.2 _ trivial
  | wait ha => exact h.2 _ (givesBack_of_not_exchange ha)
  | elapse ha => exact h.2 _ (givesBack_of_not_exchange ha)
  | begins => exact h
  | event => exact h
  | ends => exact h.2 _ (hrunning _ rfl)

theorem step (h : Held cap m s) (hobeyed : (settingsRegime K).Obeyed s loc)
    (hm : (settingsRegime K).Moves s loc a s' loc') : Held cap m s' := by
  cases hm with
  | start =>
      refine ⟨h.room, h.fields, ?_⟩
      rintro th ⟨⟩
      exact maintains_program _ _ h.fields
  | client hop hmove =>
      refine ⟨h.room, h.fields, ?_⟩
      rintro th' ⟨⟩
      exact move (h.task _ hop) (fun run => h.running hobeyed hop) hmove
  | finish hop => exact ⟨h.room, h.task _ hop, nofun⟩
  | cancel hop => exact ⟨h.room, h.fieldsLeft hobeyed hop, nofun⟩
  | _ => exact ⟨h.room, h.fields, h.task⟩

end Held

end ClientRuntime

namespace ClientUse

open ClientRuntime

variable {K : ClientKind} {s s' : ClientUse} {loc loc' : Agent → Settings} {a : Act} {cap m : Nat}

theorem held_withFields {fields : ClientFields} (h : Held cap m s.runtime)
    (hfields : fields.Fixed cap m) : Held cap m (s.withFields fields).runtime :=
  ⟨h.room, hfields, h.task⟩

theorem held_dropGuard (h : Held cap m s.runtime) : Held cap m s.dropGuard.runtime := by
  rw [dropGuard]
  split
  · exact held_withFields h ⟨h.fields.limit, h.fields.within⟩
  · exact h

/-- Only `set_max_buffer_size` changes the limit or the capacity. -/
theorem held_step (h : Held cap m s.runtime) (hobeyed : (settingsRegime K).Obeyed s.runtime loc)
    (ha : ∀ bufferSize reserved, a ≠ .setMaxBufferSize bufferSize reserved)
    (hm : Moves (settingsRegime K) s loc a s' loc') : Held cap m s'.runtime := by
  cases hm with
  | runtime _ hmove => exact h.step hobeyed hmove
  | ends _ hmove => exact held_dropGuard (h.step hobeyed hmove)
  | setCommandHasAnswer => exact held_withFields h ⟨h.fields.limit, h.fields.within⟩
  | setMaxBufferSize => exact absurd rfl (ha _ _)
  | startNoAnswer hmove =>
      have hset : Held cap m
          (s.withFields (s.runtime.fields.setCommandHasAnswer false)).runtime :=
        held_withFields h ⟨h.fields.limit, h.fields.within⟩
      exact hset.step (obeyed_withFields hobeyed) hmove

/-- In every state the buffer has room for what its limit allows. -/
def Roomy (s : ClientUse) : Prop := ∃ cap m, Held cap m s.runtime

theorem roomy_new : Roomy new :=
  ⟨_, _, by decide, ⟨rfl, rfl, Nat.zero_le _⟩, nofun⟩

theorem Roomy.step (h : Roomy s) (hobeyed : (settingsRegime K).Obeyed s.runtime loc)
    (hm : Moves (settingsRegime K) s loc a s' loc') : Roomy s' := by
  obtain ⟨cap, m, h⟩ := h
  by_cases ha : ∃ bufferSize reserved, a = .setMaxBufferSize bufferSize reserved
  case neg => exact ⟨cap, m, held_step h hobeyed (fun n r heq => ha ⟨n, r, heq⟩) hm⟩
  obtain ⟨bufferSize, reserved, rfl⟩ := ha
  cases hm with
  | setMaxBufferSize hop =>
      have hreserved : Reserved s.runtime.fields.maxBufferSize s.runtime.fields.buffer := by
        rw [h.fields.limit]
        exact .of_within h.room h.fields.within
      cases reserved with
      | true =>
          exact ⟨_, _, (reserved_reserve hreserved).1,
            ⟨rfl, (reserved_reserve hreserved).within⟩, fun th hth => nomatch hop.symm.trans hth⟩
      | false => exact ⟨cap, m, h⟩

/-- In every state that the operations of a client, or of a transport of the server, can
reach, dropped ones and the setters included: the buffer has room for what its limit
allows, and no more was asked of it. Only `set_max_buffer_size` changes its capacity, and
not if it fails. -/
theorem buffers_never_grow (h : (machine K).Reachable Machine.anyStep s) {server : FramedServer}
    (hserver : server.Reached) :
    -- the clients
    Reserved s.runtime.current.maxBufferSize s.runtime.current.buffer ∧
    (∀ a s', (machine K).step s a = some s' →
      (∀ bufferSize reserved, a ≠ .setMaxBufferSize bufferSize reserved) →
        s'.runtime.current.buffer.capacity = s.runtime.current.buffer.capacity ∧
          s'.runtime.current.maxBufferSize = s.runtime.current.maxBufferSize) ∧
    (∀ bufferSize reserved e s',
      (s.runtime.fields.setMaxBufferSize bufferSize reserved).1 = .error e →
        (machine K).step s (.setMaxBufferSize bufferSize reserved) = some s' → s' = s) ∧
    -- the transports of the server
    Reserved server.maxBufferSize server.buffer ∧
    (∀ es t, (FramedServer.readCommand server : Task (Net Interface.empty) _ _).Partial es t →
      t.left.buffer.capacity = server.buffer.capacity ∧
        t.left.maxBufferSize = server.maxBufferSize) ∧
    (∀ bufSize es t,
      (FramedServer.receiveData bufSize server : Task (Net Interface.empty) _ _).Partial es t →
        t.left.buffer.capacity = server.buffer.capacity ∧
          t.left.maxBufferSize = server.maxBufferSize) ∧
    (∀ status buf es t,
      (FramedServer.sendData status buf server : Task (Net Interface.empty) _ _).Partial es t →
        t.left.buffer.capacity = server.buffer.capacity ∧
          t.left.maxBufferSize = server.maxBufferSize) ∧
    ∀ bufferSize reserved e, (server.setMaxBufferSize bufferSize reserved).1 = .error e →
      (server.setMaxBufferSize bufferSize reserved).2 = server := by
  obtain ⟨loc, hobeyed, cap, m, hheld⟩ := ClientUse.invariant (settingsRegime K)
    (fun s _ => Roomy s) roomy_new (fun _ _ _ _ _ hobeyed h _ hm => h.step hobeyed hm) h
  have hcurrent := hheld.current hobeyed
  have hreserved := FramedServer.reserved_of_reached hserver
  have hserves {α : Type} {t : Task (Net Interface.empty) FramedServer (Except Error α)}
      (ht : t.left.Fixed server.buffer.capacity server.maxBufferSize) :
      t.left.buffer.capacity = server.buffer.capacity ∧
        t.left.maxBufferSize = server.maxBufferSize := ⟨ht.within.capacity, ht.limit⟩
  refine ⟨?_, fun a s' hs ha => ?_, fun bufferSize reserved e s' he hs => ?_, hreserved,
    fun es t ht =>
      hserves (FramedServer.fixed_of_begun FramedServer.fixed_readCommand hreserved ht),
    fun bufSize es t ht =>
      hserves (FramedServer.fixed_of_begun FramedServer.fixed_receiveData hreserved ht),
    fun status buf es t ht =>
      hserves (FramedServer.fixed_of_begun FramedServer.fixed_sendData hreserved ht), ?_⟩
  · rw [hcurrent.limit]
    exact .of_within hheld.room hcurrent.within
  · obtain ⟨loc', hobeyed', hm⟩ := Moves.of_step hobeyed hs
    have hcurrent' := (held_step hheld hobeyed ha hm).current hobeyed'
    exact ⟨hcurrent'.within.capacity.trans hcurrent.within.capacity.symm,
      hcurrent'.limit.trans hcurrent.limit.symm⟩
  · simp only [machine, ClientUse.step] at hs
    split at hs
    · cases hs
      rw [ClientFields.setMaxBufferSize_error he]
      rfl
    · cases hs
  · exact fun bufferSize reserved e he => FramedServer.setMaxBufferSize_error he

/-- A request after a larger limit was set, and a transport that was just made. -/
theorem buffers_never_grow_largerLimit :
    ∃ s, (machine .tl).run new [.setMaxBufferSize 16777216 true, .startNoAnswer 7 []] = some s ∧
      Reserved s.runtime.current.maxBufferSize s.runtime.current.buffer := by
  obtain ⟨s, hs⟩ := Option.isSome_iff_exists.mp
    (show ((machine .tl).run new
      [.setMaxBufferSize 16777216 true, .startNoAnswer 7 []]).isSome = true by decide +kernel)
  have hreach : (machine .tl).Reachable Machine.anyStep s :=
    Machine.Reachable.run (.init rfl) (fun _ _ _ => trivial) hs
  exact ⟨s, hs, (buffers_never_grow hreach .new).1⟩

end ClientUse

end Wagonet
