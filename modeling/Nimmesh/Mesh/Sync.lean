import Nimmesh.Mesh.CatchUp
import Nimmesh.Mesh.Carriage
import Nimmesh.Mesh.GcsBytes

/-! @src engine.rs store_forward.rs gcs.rs | name:A sync round | layer:properties

    Two nodes meet again. One advertises the ids it has, the other sends back what the filter does not cover, and what
    comes in is taken up and goes no further. The two halves meet at `GcsFilter.Covers`: what the filter says of an id
    after it has been built, put in a packet, sent and parsed. -/

namespace Nimmesh

namespace GcsFilter

/-- A filter of these ids takes an id for one of them: it is mapped to the value of a member. -/
def Covers (ids : List UInt64) (id : UInt64) : Prop :=
  hashToRange id (rangeOf ids.length) ∈ ids.map (hashToRange · (rangeOf ids.length))

instance (ids : List UInt64) (id : UInt64) : Decidable (Covers ids id) := inferInstanceAs (Decidable (_ ∈ _))

theorem covers_of_mem {ids : List UInt64} {id : UInt64} (h : id ∈ ids) : Covers ids id := List.mem_map_of_mem h

theorem contains_build_eq_false {ids : List UInt64} (h : ids.length ≤ 65535) (id : UInt64) :
    (build ids).contains id = false ↔ ¬ Covers ids id := by
  rw [← Bool.not_eq_true, contains_build h]
  rfl

end GcsFilter

namespace MeshNode

/-! ### Asking -/

/-- The ids that a node advertises now. -/
def advertised (env : NodeEnv) (n : MeshNode) : List PacketId := (n.recent.advertiseIds (n.now env)).1

/-- The request that advertises them. -/
def syncRequest (env : NodeEnv) (n : MeshNode) : Packet :=
  { (n.buildPacket .requestSync (GcsFilter.build (n.advertised env)).toBytes).1 with ttl := 0 }

theorem length_advertised_le (env : NodeEnv) (n : MeshNode) : (n.advertised env).length ≤ gcsMaxItems := by
  rw [advertised, RecentCache.advertiseIds, List.length_map]
  exact List.length_take_le _ _

theorem encode_syncRequest (env : NodeEnv) (n : MeshNode) : ∃ frame, encode (n.syncRequest env) = .ok frame := by
  refine encode_ok ?_
  refine (GcsFilter.length_toBytes_build (n.length_advertised_le env)).trans ?_
  decide

/-- The filter that the request carries. -/
theorem fromBytes_syncRequest (env : NodeEnv) (n : MeshNode) :
    GcsFilter.fromBytes (n.syncRequest env).payload = some (GcsFilter.build (n.advertised env)) := by
  have hfew : (n.advertised env).length ≤ 65535 := (n.length_advertised_le env).trans (by decide)
  exact GcsFilter.fromBytes_toBytes (GcsFilter.n_build_le hfew)

/-- A flood is one frame to each peer, and nothing else. -/
theorem flood_exact (env : NodeEnv) (frame : Bytes) (n : MeshNode) : ∃ add,
    (n.flood env frame).io.trace = add ++ n.io.trace ∧
      ∀ e, e ∈ add ↔ ∃ peer ∈ n.peers, e = .sent peer frame .own n.cachedHead := by
  have hperm := env.peerOrder_perm n.io.asked n.peers
  have hrun : ∀ (peers : List Link) (io : NodeIo), (peers.foldl (fun io peer =>
      if some peer = none then io else io.send peer frame .own n.cachedHead) io).trace =
        (peers.map fun peer => MeshEvent.sent peer frame .own n.cachedHead).reverse ++ io.trace := by
    intro peers
    induction peers with
    | nil => exact fun _ => rfl
    | cons peer peers ih =>
      intro io
      rw [List.foldl_cons, ih, if_neg (by simp), NodeIo.send_trace]
      simp
  refine ⟨_, hrun (env.peerOrder n.io.asked n.peers) n.io, fun e => ?_⟩
  simp only [List.mem_reverse, List.mem_map]
  constructor
  · rintro ⟨peer, hpeer, rfl⟩
    exact ⟨peer, hperm.mem_iff.mp hpeer, rfl⟩
  · rintro ⟨peer, hpeer, rfl⟩
    exact ⟨peer, hperm.mem_iff.mpr hpeer, rfl⟩

/-- STEP: a node that asks sends its request to every peer, and nothing else. -/
theorem step_requestSync (env : NodeEnv) (n : MeshNode) {frame : Bytes} (hframe : encode (n.syncRequest env) = .ok frame)
    (e : MeshEvent) :
    e ∈ n.news env .requestSync ↔ ∃ peer ∈ n.peers, e = .sent peer frame .own n.cachedHead := by
  have hrequest : n.step env .requestSync =
      floodPacket env (n.syncRequest env) { n.ask with recent := (n.recent.advertiseIds (n.now env)).2,
                                                       seq := n.seq + 1 } := rfl
  rw [floodPacket, hframe] at hrequest
  obtain ⟨add, hadd, hmem⟩ := flood_exact env frame
    { n.ask with recent := (n.recent.advertiseIds (n.now env)).2, seq := n.seq + 1 }
  have hnews : n.news env .requestSync = add := news_eq (by rw [hrequest]; exact hadd)
  rw [hnews]
  exact hmem e

/-! ### Answering -/

/-- What is live in the cache of a node when it works on a frame from this peer. -/
def live (env : NodeEnv) (peer : Link) (n : MeshNode) : List Packet :=
  let m := (n.admitPeer env (some peer)).2
  (m.recent.gc (m.now env)).entries.map (·.packet)

/-- The packet as it is sent in answer to a request. -/
def solicited (p : Packet) : Packet := { p with flags := { p.flags with isRsr := true } }

/-- The node answers this request of the peer with this frame, among others. -/
def AnswersWith (env : NodeEnv) (n : MeshNode) (peer : Link) (request frame : Bytes) : Prop :=
  ∃ head, .sent peer frame .reply head ∈ n.news env (.inbound (some peer) request)

/-- STEP: a request that is let in is answered with what is live and not covered by its filter, and no more. -/
theorem answersWith_iff {env : NodeEnv} {n : MeshNode} (hbuf : n.books.Buffered) (hcached : n.books.Cached)
    {peer : Link} {request : Bytes} {p : Packet} {ids : List PacketId} (hfew : ids.length ≤ 65535)
    (hadm : (n.admitPeer env (some peer)).1 = true) (hdec : decode request = .ok p) (hrsr : p.flags.isRsr = false)
    (hsync : p.msgType = .requestSync) (hf : GcsFilter.fromBytes p.payload = some (.build ids)) (frame : Bytes) :
    n.AnswersWith env peer request frame ↔
      ∃ q ∈ n.live env peer, ¬ GcsFilter.Covers ids (packetId q) ∧ encode (solicited q) = .ok frame := by
  have hrecent : (n.admitPeer env (some peer)).2.recent = n.recent :=
    congrArg Books.recent (admitPeer_books env (some peer) n)
  -- the cache files each packet under its own id
  have hmissing : ∀ q, q ∈ ((n.admitPeer env (some peer)).2.recent.missing (.build ids)
      ((n.admitPeer env (some peer)).2.now env)).1 ↔
        q ∈ n.live env peer ∧ ¬ GcsFilter.Covers ids (packetId q) := by
    have hid : ∀ e ∈ ((n.admitPeer env (some peer)).2.recent.gc
        ((n.admitPeer env (some peer)).2.now env)).entries, e.id = packetId e.packet := fun e he =>
      (hcached e (show e ∈ n.recent.entries from hrecent ▸ (List.dropWhile_sublist _).subset he)).1
    intro q
    simp only [RecentCache.missing, live, List.mem_map, List.mem_filter, Bool.not_eq_true',
      GcsFilter.contains_build_eq_false hfew]
    constructor
    · rintro ⟨e, ⟨he, hnot⟩, rfl⟩
      exact ⟨⟨e, he, rfl⟩, hid e he ▸ hnot⟩
    · rintro ⟨⟨e, he, rfl⟩, hnot⟩
      exact ⟨e, ⟨he, (hid e he).symm ▸ hnot⟩, rfl⟩
  constructor
  · rintro ⟨head, hsent⟩
    obtain ⟨b, hsend⟩ := sends_guarded hbuf hsent
    cases hsend with
    | reply q bytes hjob hq _ hframe =>
      cases hjob
      obtain ⟨hlive, hnot⟩ := (hmissing q).mp (of_mem_answers hdec hf hq).2
      exact ⟨q, hlive, hnot, hframe⟩
  · rintro ⟨q, hlive, hnot, hframe⟩
    exact request_answered hbuf hadm hdec hrsr hsync hf ((hmissing q).mpr ⟨hlive, hnot⟩) hframe

/-! ### Taking up the answers -/

/-- A solicited packet as the node dispatches it: it goes no further. -/
def delivered (p : Packet) : Packet := { p with flags := { p.flags with isRsr := false }, ttl := 0 }

/-- STEP: a solicited packet that is let in and is news is taken up. -/
theorem step_delivers {env : NodeEnv} {src : Option Link} {bytes : Bytes} {p : Packet} {n : MeshNode}
    (hadm : (n.admitPeer env src).1 = true) (hdec : decode bytes = .ok p) (hrsr : p.flags.isRsr = true)
    (hnew : relayKey p ∉ n.relaySeen.order) : .took (delivered p) ∈ n.news env (.inbound src bytes) := by
  have hbooks := admitPeer_books env src n
  have hstep : n.step env (.inbound src bytes) = (((n.admitPeer env src).2.count fun c =>
      { c with rsrReceived := c.rsrReceived + 1 }).dispatchPacket env (delivered p) none).swapFastTick env := by
    rw [step, processInbound_admitted hadm hdec, receivePacket, if_pos hrsr]
    rfl
  generalize hm : (n.admitPeer env src).2.count (fun c => { c with rsrReceived := c.rsrReceived + 1 }) = m at hstep
  have hseen : relayKey (delivered p) ∉ m.relaySeen.order := by
    rw [← hm, show ((n.admitPeer env src).2.count _).relaySeen = n.relaySeen from congrArg Books.relaySeen hbooks]
    exact hnew
  have htrace : m.io.trace = n.io.trace := by
    rw [← hm]
    exact congrArg Books.trace hbooks
  have hbehind := (trace_dispatchOnce env (delivered p) none m).trans (trace_dispatchPacket env (delivered p) none m)
  obtain ⟨after, hafter⟩ := hbehind.trans (poised_swapFastTick env _).trace
  have hnews : n.news env (.inbound src bytes) = after ++ [.took (delivered p)] := by
    refine news_eq ?_
    rw [hstep, ← hafter, trace_firstSeen hseen, htrace, List.append_assoc]
    rfl
  rw [hnews]
  exact List.mem_append_right _ (List.mem_singleton_self _)

/-- STEP: what a solicited packet makes a node send is the node's own. -/
theorem own_of_solicited {env : NodeEnv} {n : MeshNode} (hbuf : n.books.Buffered) {src : Option Link} {bytes : Bytes}
    {p : Packet} (hdec : decode bytes = .ok p) (hrsr : p.flags.isRsr = true) {peer : Link} {frame : Bytes}
    {kind : SendKind} {head : Option UInt32} (h : .sent peer frame kind head ∈ n.news env (.inbound src bytes)) :
    kind = .own := by
  obtain ⟨b, hsend⟩ := sends_guarded hbuf h
  cases hsend with
  | own q => rfl
  | again e => rfl
  | relay q src' ttl hjob =>
    obtain ⟨bytes', hjob, hdec', hplain, -⟩ := hjob
    cases hjob
    cases hdec.symm.trans hdec'
    rw [hrsr] at hplain
    cases hplain
  | reply q bytes' hjob hq =>
    cases hjob
    unfold answers at hq
    rw [hdec] at hq
    simp only [hrsr, Bool.not_true, Bool.and_false, Bool.false_and, Bool.false_eq_true, if_false,
      List.not_mem_nil] at hq

/-! ### The round -/

theorem exec_cached (env : NodeEnv) {n : MeshNode} (hn : n.Started) (jobs : List Job) :
    (n.exec env jobs).books.Cached ∧ (n.exec env jobs).books.Buffered := by
  refine Run.exec_preserves (step env) (I := fun m => m.books.Cached ∧ m.books.Buffered) ?_ jobs n
    ⟨fun e he => ?_, hn.buffered⟩
  · rintro m job ⟨hm, hb⟩
    exact ⟨(step_path env m job hb).cached hm, step_buffered env m job hb⟩
  · rw [show n.books.recent.entries = [] from hn.recent] at he
    cases he

/-- RUN: after any runs of two nodes, what the one sends when it asks is one request, and if the other lets it in, its
    answers are the packets that are live in its cache and that the filter does not cover, as far as they can be encoded,
    and no others; so nothing that was advertised. Whatever the asking node does until the answer with a well-formed one
    arrives, it takes that packet up if it lets the frame in and has not seen it, and passes nothing on. -/
theorem sync_round (env env' : NodeEnv) {n n' : MeshNode} (hn : n.Started) (hn' : n'.Started) (jobs jobs' : List Job)
    {toward : Link} {request : Bytes} {kind : SendKind} {head : Option UInt32}
    (hsent : .sent toward request kind head ∈ (n.exec env jobs).news env .requestSync) (peer : Link)
    (hadm : ((n'.exec env' jobs').admitPeer env' (some peer)).1 = true) :
    let ids := (n.exec env jobs).advertised env
    let m := n'.exec env' jobs'
    (∀ frame, m.AnswersWith env' peer request frame ↔
      ∃ q ∈ m.live env' peer, ¬ GcsFilter.Covers ids (packetId q) ∧ encode (solicited q) = .ok frame) ∧
    (∀ frame r, m.AnswersWith env' peer request frame → decode frame = .ok r → packetId r ∉ ids) ∧
    ∀ q ∈ m.live env' peer, q.WellFormed → ¬ GcsFilter.Covers ids (packetId q) →
      ∃ frame, m.AnswersWith env' peer request frame ∧ ∀ (more : List Job) (src : Option Link),
        let k := n.exec env (jobs ++ .requestSync :: more)
        (k.admitPeer env src).1 = true →
        (relayKey q ∉ k.relaySeen.order → .took (delivered (solicited q)) ∈ k.news env (.inbound src frame)) ∧
        ∀ peer' frame' kind' head', .sent peer' frame' kind' head' ∈ k.news env (.inbound src frame) →
          kind' = .own := by
  obtain ⟨hcached, hbuf⟩ := exec_cached env' hn' jobs'
  obtain ⟨bytes, hbytes⟩ := (n.exec env jobs).encode_syncRequest env
  obtain ⟨_, -, heq⟩ := (step_requestSync env _ hbytes _).mp hsent
  cases heq
  have hfew : ((n.exec env jobs).advertised env).length ≤ 65535 := (length_advertised_le env _).trans (by decide)
  have hanswers := answersWith_iff hbuf hcached hfew hadm (decode_encode rfl hbytes) rfl rfl
    (fromBytes_syncRequest env _)
  refine ⟨hanswers, fun frame r hframe hdec => ?_, fun q hq hwf hnot => ?_⟩
  · obtain ⟨q, -, hnot, hq⟩ := (hanswers frame).mp hframe
    rw [eq_of_decode_encode hq hdec]
    exact fun hmem => hnot (GcsFilter.covers_of_mem hmem)
  · obtain ⟨frame, hframe⟩ : ∃ frame, encode (solicited q) = .ok frame := encode_ok hwf.2
    have hdec : decode frame = .ok (solicited q) := decode_encode hwf.1 hframe
    refine ⟨frame, (hanswers frame).mpr ⟨q, hq, hnot, hframe⟩, fun more src hsrc => ⟨fun hnew => ?_, ?_⟩⟩
    · exact step_delivers hsrc hdec rfl hnew
    · intro peer' frame' kind' head' hout
      exact own_of_solicited (exec_buffered env n _ hn.buffered) hdec rfl hout

end MeshNode

open Sample MeshNode in
/-- A node that has heard nothing asks one that has heard the sample payment, is sent it and takes it up. -/
theorem sample_sync_round :
    ∃ answer, (meshNode.exec (gatewayEnv chainRpc) [.inbound (some "c") (frame (payment 1))]).AnswersWith
        (gatewayEnv chainRpc) "a"
        (frame ((meshNode.exec (gatewayEnv chainRpc) [.peerConnected "b"]).syncRequest (gatewayEnv chainRpc))) answer ∧
      .took (delivered (solicited (payment 1))) ∈
        (meshNode.exec (gatewayEnv chainRpc) [.peerConnected "b", .requestSync]).news (gatewayEnv chainRpc)
          (.inbound (some "b") answer) := by
  have hframe : encode ((meshNode.exec (gatewayEnv chainRpc) [.peerConnected "b"]).syncRequest (gatewayEnv chainRpc)) =
      .ok (frame ((meshNode.exec (gatewayEnv chainRpc) [.peerConnected "b"]).syncRequest (gatewayEnv chainRpc))) := by
    decide +kernel
  obtain ⟨-, -, hround⟩ := sync_round (gatewayEnv chainRpc) (gatewayEnv chainRpc) started_meshNode started_meshNode
    [.peerConnected "b"] [.inbound (some "c") (frame (payment 1))]
    ((step_requestSync _ _ hframe _).mpr ⟨"b", by decide +kernel, rfl⟩) "a" (by decide +kernel)
  have hlive : (meshNode.exec (gatewayEnv chainRpc) [.inbound (some "c") (frame (payment 1))]).live
      (gatewayEnv chainRpc) "a" = [payment 1] := by decide +kernel
  obtain ⟨answer, hanswer, htakes⟩ := hround (payment 1) (hlive ▸ List.mem_singleton_self _)
    ⟨by decide +kernel, by decide +kernel⟩ (by decide +kernel)
  exact ⟨answer, hanswer, (htakes [] (some "b") (by decide +kernel)).1 (by decide +kernel)⟩

end Nimmesh
