import CLibrary.Packet.Stats
import CLibrary.Packet.Transport
import CLibrary.Library.Runs

/-!
A capture: packets decoded one after the other into the one `Packet`, with the
counters of `s_stats`.

* `Capture`: the packet and the counters.  `packetDecode`: `packet_decode`, which takes
  the window; `Capture.step`: it and the decoder of the first header.
* `protoFirst`, `protoNext`: the iterator over the layers; `protoLayers_eq`: it comes to
  every layer.
* `transport_foldl`: where `transport` points to behind any headers.
* `Capture.Collected`, `capture_collects`: nothing is reset between two packets, so what
  is in a `Packet` is that of all of them, and its option array overflows.
* `Capture.Tallied`, `capture_counts`: the counters, as sums over all headers.
-/

namespace CLibrary

/-! ### The iterator -/

section Iterator

/-- `packet_proto_first`: the layer and the iterator. -/
def protoFirst (p : Packet) : Option Protocol × ℕ :=
  (if p.layerCount > 0 then some (p.layer 0) else none, 0)

/-- `packet_proto_next`. -/
def protoNext (p : Packet) (iterator : ℕ) : Option Protocol × ℕ :=
  let iterator := uadd 32 iterator 1
  (if iterator < p.layerCount then some (p.layer iterator) else none, iterator)

/-- The layers that a loop of `n` rounds over the iterator comes to. -/
def protoLoop (p : Packet) : ℕ → Option Protocol × ℕ → List Protocol
  | 0, _ => []
  | _ + 1, (none, _) => []
  | n + 1, (some l, iterator) => l :: protoLoop p n (protoNext p iterator)

variable {p : Packet}

/-- From `i` on it comes to the layers from `i` on. -/
lemma protoLoop_eq (h : p.layerCount ≤ maxLayers) {n i : ℕ} (hn : p.layerCount < n + i) :
    protoLoop p n (if i < p.layerCount then some (p.layer i) else none, i) = p.layers.drop i := by
  have hmax : maxLayers = 32 := rfl
  have hlen := length_layers p
  induction n generalizing i with
  | zero => rw [protoLoop, List.drop_eq_nil_of_le (by omega)]
  | succ n ih =>
    by_cases hi : i < p.layerCount
    · have hnext : protoNext p i =
          (if i + 1 < p.layerCount then some (p.layer (i + 1)) else none, i + 1) := by
        simp only [protoNext, uadd_of_lt (show i + 1 < 2 ^ 32 by omega)]
      have hget := getElem?_layers hi
      have hi' : i < p.layers.length := by omega
      rw [List.getElem?_eq_getElem hi', Option.some_inj] at hget
      rw [if_pos hi, protoLoop, hnext, ih (by omega), List.drop_eq_getElem_cons hi', hget]
    · rw [if_neg hi, protoLoop, List.drop_eq_nil_of_le (by omega)]

/-- **The iterator** comes to every layer, and to `NULL` behind the last. -/
lemma protoLayers_eq (h : p.layerCount ≤ maxLayers) {n : ℕ} (hn : p.layerCount < n) :
    protoLoop p n (protoFirst p) = p.layers := by
  rw [protoFirst, protoLoop_eq (i := 0) h hn, List.drop_zero]

end Iterator

/-! ### The capture -/

/-- A packet that is captured, the decoder of its first header and the rounds its
decoding gets. -/
structure Received where
  mem : Memory
  pkt : Option ℤ
  len : UInt32
  decoder : Decoder
  rounds : ℕ

/-- The `Packet` and `s_stats`, and a record of where options were stored. -/
structure Capture where
  packet : Packet
  stats : PacketStats
  totalBytes : ℕ
  stores : List ℕ

namespace Capture

/-- `packet_decode`, up to the return it lacks; `none` where it returns -1. -/
def packetDecode (s : Capture) (pkt : Option ℤ) (len : ℕ) : Option (ℤ × Capture) :=
  pkt.bind fun pkt =>
    if len = 0 then none
    else some (pkt, { s with
      totalBytes := uadd 32 s.totalBytes len
      packet := { s.packet with payload := pkt, paysize := len } })

/-- A packet that is captured: `packet_decode`, and the decoder if it took the packet. -/
def step (s : Capture) (r : Received) : Option Capture :=
  match s.packetDecode r.pkt r.len.toNat with
  | none => some s
  | some (pkt, s) =>
      let c : Call := ⟨r.decoder, pkt, r.len.toNat⟩
      match decode r.mem r.rounds c (.start s.packet s.stats) with
      | (none, _) => none
      | (some _, d) => some { s with
          packet := d.packet
          stats := d.stats
          stores := s.stores ++ storeIndexes r.mem c (.start s.packet s.stats) r.rounds }

/-- Nothing captured. -/
def start (packet : Packet) (stats : PacketStats) (totalBytes : ℕ) : Capture :=
  ⟨packet, stats, totalBytes, []⟩

end Capture

namespace Received

variable (r : Received)

/-- The call of the decoder. -/
def call : Option Call := r.pkt.bind fun pkt =>
  if r.len.toNat = 0 then none else some ⟨r.decoder, pkt, r.len.toNat⟩

/-- The headers it comes to. -/
def calls : List Call := r.call.elim [] (chain (Call.nested r.mem) r.rounds)

/-- Those that are accepted. -/
def headers : List Call := r.call.elim [] (CLibrary.headers r.mem r.rounds)

/-- Their layers. -/
def layers : List Protocol := r.headers.map (Call.layer r.mem)

/-- The TCP options. -/
def options : List TcpOption := r.call.elim [] (resultOptions r.mem r.rounds)

end Received

/-! ### One packet after the other -/

section Step

variable {s t : Capture} {r : Received}

/-- A packet that is not taken changes nothing. -/
lemma Capture.step_refused (h : r.call = none) : s.step r = some s := by
  have hdecode : s.packetDecode r.pkt r.len.toNat = none := by
    rw [Received.call, Option.bind_eq_none_iff] at h
    rw [Capture.packetDecode, Option.bind_eq_none_iff]
    intro pkt hpkt
    have hlen := h pkt hpkt
    split_ifs at hlen ⊢ with hzero
    rfl
  rw [Capture.step, hdecode]

/-- The state that `packet_decode` leaves for the call. -/
def Capture.window (s : Capture) (c : Call) : Capture :=
  { s with
    totalBytes := uadd 32 s.totalBytes c.len
    packet := { s.packet with payload := c.pkt, paysize := c.len } }

/-- **A packet that is taken** is decoded to its end. -/
lemma Capture.step_taken {c : Call} (h : r.call = some c) (hs : s.step r = some t) :
    let s' := s.window c
    let d := decode r.mem r.rounds c (.start s'.packet s'.stats)
    d.1 ≠ none ∧ c.len < 2 ^ 32 ∧ t = { s' with
      packet := d.2.packet
      stats := d.2.stats
      stores := s'.stores ++ storeIndexes r.mem c (.start s'.packet s'.stats) r.rounds } := by
  intro s' d
  rw [Received.call, Option.bind_eq_some_iff] at h
  obtain ⟨pkt, hpkt, hc⟩ := h
  split_ifs at hc with hzero
  obtain rfl := Option.some.inj hc
  have hdecode : s.packetDecode r.pkt r.len.toNat = some (pkt, s') := by
    rw [Capture.packetDecode, hpkt, Option.bind_some, if_neg hzero]
    rfl
  simp only [Capture.step, hdecode] at hs
  cases hd : decode r.mem r.rounds ⟨r.decoder, pkt, r.len.toNat⟩ (.start s'.packet s'.stats) with
  | mk ret out =>
    rw [hd] at hs
    have hout : d = (ret, out) := hd
    cases ret with
    | none => cases hs
    | some v =>
      rw [hout]
      exact ⟨Option.some_ne_none v, r.len.toNat_lt, (Option.some.inj hs).symm⟩

end Step

/-! ### Options and their places -/

section Options

variable {mem : Memory} {c : Call} {s : Decoding} {p : Packet}

/-- The options of a decoding follow those that there were. -/
lemma tcpOptions_result (n : ℕ) (c : Call)
    (h : p.tcpoptCount + (resultOptions mem n c).length < 2 ^ 32) :
    (result mem n c p).2.tcpOptions = p.tcpOptions ++ resultOptions mem n c := by
  induction n generalizing c p with
  | zero => exact (List.append_nil _).symm
  | succ n ih =>
    have hfill := tcpoptCount_fill mem c p
    have hsame := tcpOptions_fill mem c p
    cases hnext : c.nested mem with
    | none =>
      rw [resultOptions_of_last hnext] at h
      rw [result_of_last hnext, resultOptions_of_last hnext]
      by_cases hacc : c.Accepts mem
      · rw [Call.finish, if_pos hacc, tcpOptions_addOptions _ (hfill ▸ h), hsame]
      · rw [finish_of_refused hacc, options_of_refused hacc, List.append_nil, tcpOptions_refuse]
    | some d =>
      rw [resultOptions_of_nested hnext] at h
      rw [result_of_nested hnext, resultOptions_of_nested hnext, ih d (hfill ▸ h), hsame]

/-- **Options are stored one behind the other**, from where the counter was. -/
lemma storeIndexes_eq (n : ℕ)
    (h : s.packet.tcpoptCount + (resultOptions mem n c).length < 2 ^ 32) :
    storeIndexes mem c s n =
      (List.range (resultOptions mem n c).length).map (s.packet.tcpoptCount + ·) := by
  have hs : s.packet.tcpoptCount < 2 ^ 32 := (Nat.le_add_right _ _).trans_lt h
  induction n with
  | zero => rfl
  | succ n ih =>
    obtain ⟨l, hlen, heq⟩ := @resultOptions_succ mem n c
    have hle : (resultOptions mem n c).length ≤ (resultOptions mem (n + 1) c).length := by
      rw [heq, List.length_append]
      exact Nat.le_add_right _ _
    have hsnoc : storeIndexes mem c s (n + 1) = storeIndexes mem c s n ++
        (if (decode mem (n + 1) c s).2.packet.tcpoptCount =
          (decode mem n c s).2.packet.tcpoptCount then none
        else some (decode mem n c s).2.packet.tcpoptCount).toList := by
      rw [storeIndexes, List.range_succ, List.filterMap_append]
      congr 1
    rw [hsnoc, ih (by omega)]
    rcases @tcpoptCount_step mem c s hs n with ⟨hcount, hstep⟩ | ⟨hcount, hstep⟩
    · rw [if_pos hcount, hstep, Option.toList_none, List.append_nil]
    · rw [if_neg hcount, hstep, List.range_succ, List.map_append, List.map_singleton,
        tcpoptCount_decode hs, Nat.mod_eq_of_lt (by omega)]
      rfl

end Options

/-! ### The transport layer -/

/-- A TCP or UDP header. -/
def Call.Transport (c : Call) : Prop := c.decoder = .tcp ∨ c.decoder = .udp

instance (c : Call) : Decidable c.Transport := inferInstanceAs (Decidable (_ ∨ _))

/-- `transport` behind the headers `l`: the layer of the last transport header, or the
last that there is room for. -/
structure TransportBehind (l : List Call) (transport : Option ℕ) : Prop where
  last : ∀ before t after, l = before ++ t :: after → t.Transport →
    (∀ h ∈ after, ¬ h.Transport) → transport = some (min before.length (maxLayers - 1))
  none : (∀ h ∈ l, ¬ h.Transport) → transport = none

section Transport

variable {mem : Memory} {c : Call} {p : Packet} {l : List Call} {transport : Option ℕ}

/-- Headers that are none of the two leave it alone. -/
lemma TransportBehind.other (h : TransportBehind l transport) (hc : ¬ c.Transport) :
    TransportBehind (l ++ [c]) transport := by
  refine ⟨fun before t after heq ht hafter => ?_, fun hall => ?_⟩
  · obtain rfl | ⟨after, e, rfl⟩ := List.eq_nil_or_concat' after
    · obtain ⟨-, hlast⟩ := List.append_inj' heq rfl
      exact absurd (List.singleton_inj.mp hlast ▸ ht) hc
    · rw [← List.cons_append, ← List.append_assoc] at heq
      obtain ⟨hinit, -⟩ := List.append_inj' heq rfl
      exact h.last before t after hinit ht fun e he => hafter e (List.mem_append_left _ he)
  · exact h.none fun e he => hall e (List.mem_append_left _ he)

/-- A transport header is the last. -/
lemma transportBehind_concat (hc : c.Transport) :
    TransportBehind (l ++ [c]) (some (min l.length (maxLayers - 1))) := by
  refine ⟨fun before t after heq ht hafter => ?_, fun hall => ?_⟩
  · obtain rfl | ⟨after, e, rfl⟩ := List.eq_nil_or_concat' after
    · rw [(List.append_inj' heq rfl).1]
    · rw [← List.cons_append, ← List.append_assoc] at heq
      obtain ⟨-, hlast⟩ := List.append_inj' heq rfl
      exact absurd (List.singleton_inj.mp hlast ▸ hc)
        (hafter e (List.mem_append_right _ (List.mem_singleton_self e)))
  · exact absurd hc (hall c (List.mem_append_right _ (List.mem_singleton_self c)))

/-- **A property of the headers so far and the packet** that headers, options and
refusals keep is kept by a decoding. -/
lemma result_along (R : List Call → Packet → Prop)
    (hfill : ∀ l c p, R l p → R (l ++ [c]) (c.fill mem p))
    (hoption : ∀ l p option, R l p → R l (Packet.addOption p option))
    (hrefuse : ∀ l c p, R l p → R l (Call.refuse c p)) (n : ℕ) (c : Call) (h : R l p) :
    R (l ++ headers mem n c) (result mem n c p).2 := by
  induction n generalizing c p l with
  | zero => exact (List.append_nil l).symm ▸ h
  | succ n ih =>
    cases hnext : c.nested mem with
    | none =>
      rw [result_of_last hnext, headers_of_last hnext, Call.finish]
      split_ifs with hacc
      · have hoptions : ∀ (options : List TcpOption) q, R (l ++ [c]) q →
            R (l ++ [c]) (options.foldl Packet.addOption q) := by
          intro options
          induction options with
          | nil => exact fun q hq => hq
          | cons option options ih => exact fun q hq => ih _ (hoption _ _ option hq)
        exact hoptions _ _ (hfill l c p h)
      · exact (List.append_nil l).symm ▸ hrefuse l c p h
    | some d =>
      rw [result_of_nested hnext, headers_of_nested hnext, List.append_cons]
      exact ih d (hfill l c p h)

/-- **Where `transport` points to** behind the headers of a decoding. -/
lemma transport_result (n : ℕ) (c : Call)
    (h : p.layerCount = min l.length maxLayers ∧ TransportBehind l p.transport) :
    (result mem n c p).2.layerCount = min (l ++ headers mem n c).length maxLayers ∧
      TransportBehind (l ++ headers mem n c) (result mem n c p).2.transport := by
  refine result_along (fun l p => p.layerCount = min l.length maxLayers ∧
    TransportBehind l p.transport) (fun l c p hp => ?_) (fun _ _ _ => id) (fun l c p hp => ?_) n c h
  · obtain ⟨hcount, hbehind⟩ := hp
    have hle : p.layerCount ≤ maxLayers := hcount ▸ Nat.min_le_right _ _
    refine ⟨?_, ?_⟩
    · rw [← length_layers, layers_fill hle, List.length_take, List.length_append, length_layers,
        hcount, List.length_append, List.length_singleton, List.length_singleton]
      omega
    · by_cases hc : c.Transport
      · rw [(transport_fill hc hle).1, hcount, min_assoc,
          min_eq_right (Nat.sub_le maxLayers 1)]
        exact transportBehind_concat hc
      · have hsame : (c.fill mem p).transport = p.transport := by
          rw [Call.Transport, not_or] at hc
          rw [Call.fill, Packet.layerIns, Call.fields]
          split
          case h_6 htcp => exact absurd htcp hc.1
          case h_7 hudp => exact absurd hudp hc.2
          all_goals rfl
        rw [hsame]
        exact hbehind.other hc
  · rw [Call.refuse]
    split_ifs <;> exact hp

end Transport

/-! ### What is in the packet -/

/-- A `Packet` that was made for the packets `rs`. -/
structure Capture.Collected (rs : List Received) (s : Capture) : Prop where
  layers : s.packet.layers = (rs.flatMap Received.layers).take maxLayers
  options : s.packet.tcpOptions = rs.flatMap Received.options
  stores : s.stores = List.range (rs.flatMap Received.options).length
  transport : TransportBehind (rs.flatMap Received.headers) s.packet.transport

section Collected

variable {rs : List Received} {s t : Capture} {r : Received}

lemma length_flatMap_layers (rs : List Received) :
    (rs.flatMap Received.layers).length = (rs.flatMap Received.headers).length := by
  rw [List.length_flatMap, List.length_flatMap]
  exact congrArg List.sum (List.map_congr_left fun r _ => List.length_map _)

lemma length_tcpOptions (p : Packet) : p.tcpOptions.length = p.tcpoptCount := by
  rw [Packet.tcpOptions, List.length_map, List.length_range]

/-- The headers, options and calls of a packet that is taken. -/
lemma Received.of_call {c : Call} (h : r.call = some c) :
    r.headers = CLibrary.headers r.mem r.rounds c ∧ r.options = resultOptions r.mem r.rounds c ∧
      r.calls = chain (Call.nested r.mem) r.rounds c := by
  rw [Received.headers, Received.options, Received.calls, h]
  exact ⟨rfl, rfl, rfl⟩

/-- One that is not has none. -/
lemma Received.of_refused (h : r.call = none) :
    r.headers = [] ∧ r.layers = [] ∧ r.options = [] ∧ r.calls = [] := by
  rw [Received.layers, Received.headers, Received.options, Received.calls, h]
  exact ⟨rfl, rfl, rfl, rfl⟩

/-- **A packet more.** -/
lemma Capture.Collected.step (h : s.Collected rs) (hs : s.step r = some t)
    (hcount : ((rs ++ [r]).flatMap Received.options).length < 2 ^ 32) :
    t.Collected (rs ++ [r]) := by
  rw [List.flatMap_append, List.flatMap_singleton, List.length_append] at hcount
  cases hcall : r.call with
  | none =>
    obtain ⟨hheaders, hlayers, hoptions, -⟩ := Received.of_refused hcall
    rw [Capture.step_refused hcall] at hs
    obtain rfl := Option.some.inj hs
    obtain ⟨h1, h2, h3, h4⟩ := h
    constructor <;> rw [List.flatMap_append, List.flatMap_singleton]
    · rwa [hlayers, List.append_nil]
    · rwa [hoptions, List.append_nil]
    · rwa [hoptions, List.append_nil]
    · rwa [hheaders, List.append_nil]
  | some c =>
    obtain ⟨hheaders, hoptions, -⟩ := Received.of_call hcall
    obtain ⟨-, -, rfl⟩ := Capture.step_taken hcall hs
    have hpacket : ∀ d : Decoding, d = .start (s.window c).packet (s.window c).stats →
        (decode r.mem r.rounds c d).2.packet =
          (result r.mem r.rounds c (s.window c).packet).2 := by
      rintro d rfl
      exact (decode_result r.rounds c _).1
    specialize hpacket _ rfl
    have hwindow : (s.window c).packet.layers = s.packet.layers ∧
        (s.window c).packet.tcpOptions = s.packet.tcpOptions ∧
        (s.window c).packet.transport = s.packet.transport := ⟨rfl, rfl, rfl⟩
    have hlayerCount : (s.window c).packet.layerCount =
        min (rs.flatMap Received.headers).length maxLayers := by
      rw [← length_layers, hwindow.1, h.layers, List.length_take, length_flatMap_layers, min_comm]
    have hoptCount : (s.window c).packet.tcpoptCount = (rs.flatMap Received.options).length := by
      rw [← length_tcpOptions, hwindow.2.1, h.options]
    constructor <;> dsimp only <;> rw [List.flatMap_append, List.flatMap_singleton]
    · rw [hpacket, result_layers _ _ (hlayerCount ▸ Nat.min_le_right _ _), hwindow.1, h.layers,
        take_take_append, Received.layers, hheaders]
    · rw [hpacket, tcpOptions_result _ _ (by rw [hoptCount, ← hoptions]; exact hcount), hwindow.2.1,
        h.options, hoptions]
    · have hstart : (Decoding.start (s.window c).packet (s.window c).stats).packet.tcpoptCount =
          (rs.flatMap Received.options).length := hoptCount
      rw [storeIndexes_eq _ (by rw [hstart, ← hoptions]; exact hcount), hstart, ← hoptions,
        List.length_append, List.range_add]
      exact congrArg (· ++ _) h.stores
    · rw [hpacket, hheaders]
      exact (transport_result _ _ ⟨hlayerCount, hwindow.2.2 ▸ h.transport⟩).2

end Collected

/-- **A `Packet` collects**: nothing in it is reset from one packet to the next.  In every
run from a `Packet` of `packet_create` whose option counter was zero, its layers are the
first `MAX_LAYERS` headers of all packets, which the iterator comes to, its options those
of all packets, and `transport` is where the last transport header of all would be; and
every option is stored inside the array exactly if all packets together have no more of
them than `MAX_TCPOPTLEN`. -/
theorem capture_collects {block packet : Packet} (hzero : block.tcpoptCount = 0)
    (hcreate : packetCreate (some block) = some packet) {stats : PacketStats} {totalBytes : ℕ}
    {rs : List Received} {s : Capture}
    (hrun : Run Capture.step (fun _ _ => True) (.start packet stats totalBytes) rs s)
    (hcount : (rs.flatMap Received.options).length < 2 ^ 32) :
    s.Collected rs ∧
      (∀ n, maxLayers < n → protoLoop s.packet n (protoFirst s.packet) =
        (rs.flatMap Received.layers).take maxLayers) ∧
      ((∀ i ∈ s.stores, i < maxTcpoptlen) ↔
        (rs.flatMap Received.options).length ≤ maxTcpoptlen) := by
  obtain rfl : block.memsetZeroLen = packet := Option.some.inj hcreate
  have hcollected : s.Collected rs := by
    induction hrun with
    | nil =>
      refine ⟨rfl, ?_, rfl, fun before t after heq => ?_, fun _ => rfl⟩
      · exact List.length_eq_zero_iff.mp ((length_tcpOptions _).trans hzero)
      · exact absurd heq.symm (List.append_ne_nil_of_right_ne_nil _ (List.cons_ne_nil t after))
    | @snoc rs t u r _ _ hs ih =>
      refine (ih ?_).step hs hcount
      rw [List.flatMap_append, List.length_append] at hcount
      omega
  refine ⟨hcollected, fun n hn => ?_, ?_⟩
  · have hle : s.packet.layerCount ≤ maxLayers := by
      rw [← length_layers, hcollected.layers]
      exact List.length_take_le _ _
    rw [protoLayers_eq hle (by omega), hcollected.layers]
  · rw [hcollected.stores]
    constructor
    · intro hall
      by_contra hlt
      exact lt_irrefl _ (hall maxTcpoptlen (List.mem_range.mpr (not_le.mp hlt)))
    · intro hle i hi
      exact (List.mem_range.mp hi).trans_le hle

/-- The segment of `synSegment`, as it is received. -/
def synReceived : Received := ⟨synSegment, some 0, 44, .ip, 4⟩

/-- The segment twice: four layers and two options. -/
theorem two_segments_collected : ∃ s : Capture,
    s.Collected [synReceived, synReceived] ∧ s.stores = [0, 1] ∧ s.packet.transport = some 3 := by
  have hexec : (exec Capture.step
      (.start (Packet.memsetZeroLen { (default : Packet) with tcpoptCount := 0 }) default 0)
      [synReceived, synReceived]).map (fun s => (s.stores, s.packet.transport)) =
        some ([0, 1], some 3) := by
    decide +kernel
  obtain ⟨s, hs, hout⟩ := Option.map_eq_some_iff.mp hexec
  rw [Prod.mk.injEq] at hout
  exact ⟨s, (capture_collects rfl rfl (run_of_exec hs) (by decide +kernel)).1, hout⟩

/-! ### What is counted -/

/-- The bytes that `packet_decode` counts. -/
def Received.bytes (r : Received) : ℕ := r.call.elim 0 Call.len

/-- The counters behind the packets `rs`. -/
structure Capture.Tallied (rs : List Received) (stats : PacketStats) (totalBytes : ℕ)
    (s : Capture) : Prop where
  totalBytes : s.totalBytes = (totalBytes + (rs.map Received.bytes).sum) % 2 ^ 32
  counters : Tally (rs.flatMap Received.calls) stats s.stats
  segments : ((rs.flatMap Received.calls).map (Call.packets .tcp)).sum =
    ((rs.flatMap Received.calls).map Call.tooshort).sum +
      ((rs.flatMap Received.headers).filter fun h => h.decoder = .tcp).length

section Tallied

variable {rs : List Received} {s t : Capture} {r : Received}

/-- A TCP header is too short, or accepted. -/
lemma packets_tcp_eq (mem : Memory) (l : List Call) : (l.map (Call.packets .tcp)).sum =
    (l.map Call.tooshort).sum +
      ((l.filter fun h => h.Accepts mem).filter fun h => h.decoder = .tcp).length := by
  induction l with
  | nil => rfl
  | cons c l ih =>
    rw [List.map_cons, List.sum_cons, List.map_cons, List.sum_cons, ih, List.filter_cons]
    by_cases htcp : c.decoder = .tcp
    · have hiff : c.Accepts mem ↔ sizeofTcphdr ≤ c.len := by simp only [Call.Accepts, htcp]
      rw [Call.packets, if_pos htcp, Call.tooshort]
      by_cases hshort : c.len < sizeofTcphdr
      · rw [if_pos ⟨htcp, hshort⟩, if_neg (by simpa [hiff] using hshort)]
        omega
      · rw [if_neg fun h => hshort h.2, if_pos (by simpa [hiff] using hshort), List.filter_cons,
          if_pos (by simpa using htcp), List.length_cons]
        omega
    · rw [Call.packets, if_neg htcp, Call.tooshort, if_neg fun h => htcp h.1]
      split_ifs
      · rw [List.filter_cons, if_neg (by simpa using htcp)]
        omega
      · omega

lemma segments_eq (rs : List Received) : ((rs.flatMap Received.calls).map (Call.packets .tcp)).sum =
    ((rs.flatMap Received.calls).map Call.tooshort).sum +
      ((rs.flatMap Received.headers).filter fun h => h.decoder = .tcp).length := by
  induction rs with
  | nil => rfl
  | cons r rs ih =>
    have hr : (r.calls.map (Call.packets .tcp)).sum = (r.calls.map Call.tooshort).sum +
        (r.headers.filter fun h => h.decoder = .tcp).length := by
      cases hcall : r.call with
      | none =>
        obtain ⟨hheaders, -, -, hcalls⟩ := Received.of_refused hcall
        rw [hheaders, hcalls]
        rfl
      | some c =>
        obtain ⟨hheaders, -, hcalls⟩ := Received.of_call hcall
        rw [hheaders, hcalls]
        exact packets_tcp_eq r.mem _
    rw [List.flatMap_cons, List.flatMap_cons, List.map_append, List.sum_append, List.map_append,
      List.sum_append, List.filter_append, List.length_append, ih, hr]
    omega

/-- The bytes and headers of one packet. -/
lemma Capture.step_counts (hs : s.step r = some t) (hfits : s.stats.Fits)
    (htotal : s.totalBytes < 2 ^ 32) :
    t.totalBytes = (s.totalBytes + r.bytes) % 2 ^ 32 ∧ Tally r.calls s.stats t.stats := by
  cases hcall : r.call with
  | none =>
    obtain ⟨-, -, -, hcalls⟩ := Received.of_refused hcall
    rw [Capture.step_refused hcall] at hs
    obtain rfl := Option.some.inj hs
    rw [Received.bytes, hcall, hcalls]
    exact ⟨(Nat.mod_eq_of_lt htotal).symm, .nil hfits⟩
  | some c =>
    obtain ⟨-, -, hcalls⟩ := Received.of_call hcall
    obtain ⟨-, -, rfl⟩ := Capture.step_taken hcall hs
    rw [Received.bytes, hcall, hcalls]
    refine ⟨rfl, ?_⟩
    dsimp only
    rw [decode_stats]
    exact tally_foldl _ hfits

end Tallied

/-- **What is counted**: in every run, `total_bytes` are the bytes of the packets that
`packet_decode` takes; every IPv4 and every TCP header that a decoding comes to is
counted with all bytes behind it, also one that is refused and one in a tunnel, and
nothing else; and the TCP headers counted are the ones too short and the ones that are
accepted. -/
theorem capture_counts {packet : Packet} {stats : PacketStats} (hfits : stats.Fits)
    {totalBytes : ℕ} (htotal : totalBytes < 2 ^ 32) {rs : List Received} {s : Capture}
    (hrun : Run Capture.step (fun _ _ => True) (.start packet stats totalBytes) rs s) :
    s.Tallied rs stats totalBytes := by
  suffices hcounts : s.totalBytes = (totalBytes + (rs.map Received.bytes).sum) % 2 ^ 32 ∧
      Tally (rs.flatMap Received.calls) stats s.stats from
    ⟨hcounts.1, hcounts.2, segments_eq rs⟩
  induction hrun with
  | nil => exact ⟨(Nat.mod_eq_of_lt htotal).symm, .nil hfits⟩
  | @snoc rs t u r _ _ hs ih =>
    obtain ⟨hbytes, hcounted⟩ := ih
    obtain ⟨hbytes', hcounted'⟩ := Capture.step_counts hs hcounted.fits
      (hbytes ▸ Nat.mod_lt _ (by positivity))
    rw [List.map_append, List.sum_append, List.map_singleton, List.sum_singleton,
      List.flatMap_append, List.flatMap_singleton]
    refine ⟨?_, hcounted.append hcounted'⟩
    rw [hbytes', hbytes, Nat.mod_add_mod, Nat.add_assoc]

/-- The segment twice. -/
theorem two_segments_tallied : ∃ s : Capture,
    s.Tallied [synReceived, synReceived] default 0 ∧ s.totalBytes = 88 ∧
      s.stats.tcpsPackets = 2 ∧ s.stats.tcpsBytes = 48 := by
  have hexec : (exec Capture.step (.start default default 0) [synReceived, synReceived]).map
      (fun s => (s.totalBytes, s.stats.tcpsPackets, s.stats.tcpsBytes)) = some (88, 2, 48) := by
    decide +kernel
  obtain ⟨s, hs, hout⟩ := Option.map_eq_some_iff.mp hexec
  rw [Prod.mk.injEq, Prod.mk.injEq] at hout
  have hfits : (default : PacketStats).Fits := by constructor <;> exact Nat.two_pow_pos 32
  exact ⟨s, capture_counts hfits (Nat.two_pow_pos 32) (run_of_exec hs), hout⟩

end CLibrary
