import AsyncRPC.Proof.ServiceRegistry
import AsyncRPC.RpcServer

/-!
# The loop of `RPCServer::handleClient`

A round that gets to its end answers a frame that asks and no other, and leaves `services_` alone, on
which alone the next rounds depend. The loop goes on to the null request just as long as every round
gets to its end and none of them returns.
-/

namespace AsyncRPC.RpcServer.Server

open ServiceRegistry

variable {Conn : Type} {env : Env} {s s' : Server Conn} {client : Conn}
variable {request : Protocol}

/-- The handler of a frame gets to its end. -/
def Handled (env : Env) (s : Server Conn) (request : Protocol) : Prop :=
  match request.msgType with
  | .rpcMethodRequest => ∃ r, s.handleMethodCall env request = .ok r
  | .rpcSubscribeRequest => ∃ r, subscription env request.content = .ok r
  | _ => True

theorem services_emplace (key : Bytes) (client : Conn) :
    (s.emplace env key client).services = s.services := by
  rw [emplace]
  split
  · rfl
  · rfl

theorem call_congr (h : s'.services = s.services) (funName args : Bytes) :
    s'.call env funName args = s.call env funName args := by
  rw [call, call, h]

theorem handleMethodCall_congr (h : s'.services = s.services) (request : Protocol) :
    s'.handleMethodCall env request = s.handleMethodCall env request := by
  simp only [handleMethodCall, call_congr h]

theorem handled_congr (h : s'.services = s.services) :
    Handled env s' request ↔ Handled env s request := by
  cases htype : request.msgType with
  | rpcMethodRequest => simp only [Handled, htype, handleMethodCall_congr h]
  | _ => simp only [Handled, htype]

theorem handleMethodCall_inv {response : Protocol} {invoked : List Invocation}
    (h : s.handleMethodCall env request = .ok (response, invoked)) :
    response.msgType = .rpcMethodResponse ∧ response.sequenceId = request.sequenceId := by
  obtain ⟨⟨funName, args⟩, -, h⟩ := Outcome.bind_eq_ok.mp h
  obtain ⟨⟨content, invoked'⟩, -, h⟩ := Outcome.bind_eq_ok.mp h
  cases h
  exact ⟨rfl, rfl⟩

theorem handleSubscribe_inv {response : Protocol}
    (h : s.handleSubscribe env request client = .ok (response, s')) :
    (response.msgType = .rpcSubscribeResponse ∧ response.sequenceId = request.sequenceId) ∧
      s'.services = s.services := by
  obtain ⟨⟨key, content⟩, -, h⟩ := Outcome.bind_eq_ok.mp h
  cases h
  exact ⟨⟨rfl, rfl⟩, services_emplace key client⟩

theorem handleFrame_isOk (s : Server Conn) (client : Conn) (request : Protocol) :
    (∃ r, s.handleFrame env client request = .ok r) ↔ Handled env s request := by
  cases htype : request.msgType with
  | rpcMethodRequest =>
      simp only [handleFrame, Handled, htype]
      constructor
      · rintro ⟨r, h⟩
        obtain ⟨r', hr', -⟩ := Outcome.bind_eq_ok.mp h
        exact ⟨r', hr'⟩
      · rintro ⟨r', hr'⟩
        exact ⟨_, Outcome.bind_eq_ok.mpr ⟨r', hr', rfl⟩⟩
  | rpcSubscribeRequest =>
      simp only [handleFrame, handleSubscribe, Handled, htype]
      constructor
      · rintro ⟨r, h⟩
        obtain ⟨r', hr', -⟩ := Outcome.bind_eq_ok.mp h
        obtain ⟨r'', hr'', -⟩ := Outcome.bind_eq_ok.mp hr'
        exact ⟨r'', hr''⟩
      · rintro ⟨r', hr'⟩
        exact ⟨_, Outcome.bind_eq_ok.mpr ⟨_, Outcome.bind_eq_ok.mpr ⟨r', hr', rfl⟩, rfl⟩⟩
  | _ =>
      simp only [handleFrame, Handled, htype]
      exact iff_of_true ⟨_, rfl⟩ trivial

theorem handleFrame_inv {response : Option Protocol}
    (h : s.handleFrame env client request = .ok (response, s')) :
    s'.services = s.services ∧
      List.Forall₂ Answers ([request].filter asks) response.toList := by
  cases htype : request.msgType with
  | heartbeatPacket =>
      simp only [handleFrame, htype, Except.ok.injEq, Prod.mk.injEq] at h
      obtain ⟨rfl, rfl⟩ := h
      simp [asks, Answers, htype, handleHeartBeatPacket]
  | rpcMethodRequest =>
      simp only [handleFrame, htype] at h
      obtain ⟨⟨response', invoked⟩, hcall, h⟩ := Outcome.bind_eq_ok.mp h
      cases h
      simp [asks, Answers, htype, handleMethodCall_inv hcall]
  | rpcSubscribeRequest =>
      simp only [handleFrame, htype] at h
      obtain ⟨⟨response', s''⟩, hsubscribe, h⟩ := Outcome.bind_eq_ok.mp h
      cases h
      obtain ⟨hresponse, hservices⟩ := handleSubscribe_inv hsubscribe
      simp [asks, Answers, htype, hresponse, hservices]
  | _ =>
      simp only [handleFrame, htype, Except.ok.injEq, Prod.mk.injEq] at h
      obtain ⟨rfl, rfl⟩ := h
      simp [asks, htype]

/-- The loop serves all frames of a connection just if none of them is an `RPC_PUBLISH_RESPONSE` and
every handler gets to its end. -/
theorem serves_iff_handled (s : Server Conn) (requests : List Protocol) :
    s.Serves env client requests ↔
      ∀ request ∈ requests, request.msgType ≠ .rpcPublishResponse ∧ Handled env s request := by
  induction requests generalizing s with
  | nil => simp [Serves, handleClient]
  | cons request requests ih =>
      rw [List.forall_mem_cons]
      by_cases hpublish : request.msgType = .rpcPublishResponse
      · refine iff_of_false ?_ fun h => h.1.1 hpublish
        rintro ⟨hexit, -⟩
        rw [handleClient, if_pos hpublish] at hexit
        cases hexit
      · cases hframe : s.handleFrame env client request with
        | error fault =>
            refine iff_of_false ?_ fun h => ?_
            · rintro ⟨hexit, -⟩
              rw [handleClient, if_neg hpublish, hframe] at hexit
              cases hexit
            · obtain ⟨r, hr⟩ := (handleFrame_isOk s client request).mpr h.1.2
              cases hframe.symm.trans hr
        | ok r =>
            obtain ⟨response, s'⟩ := r
            obtain ⟨hservices, hanswer⟩ := handleFrame_inv hframe
            have hhandled := (handleFrame_isOk s client request).mp ⟨_, hframe⟩
            have hrest := ih s'
            simp only [handled_congr hservices] at hrest
            rw [and_iff_right ⟨hpublish, hhandled⟩, ← hrest]
            have hfilter : (request :: requests).filter asks
                = [request].filter asks ++ requests.filter asks := by
              rw [← List.filter_append, List.singleton_append]
            simp only [Serves, handleClient, if_neg hpublish, hframe, hfilter]
            refine and_congr_right fun _ => ?_
            constructor
            · intro hall
              have hdrop := List.forall₂_drop_append _ _ _ hall
              rwa [List.drop_left' hanswer.length_eq] at hdrop
            · exact fun hall => List.rel_append hanswer hall

section Examples

/-- A server of one function, which takes a number to its successor. -/
def successor : Method :=
  { args := .tupleOne (.scalar .uint8), ret := .scalar .uint8, run := fun x => BitVec.add x 1#8 }

def oneService : Server Bool :=
  { services := fun name => if name = [102] then some successor else none, subscribes := [] }

/-- A client acknowledges a publication and then asks for something. -/
def acknowledged : List Protocol :=
  [Protocol.create .rpcPublishResponse [], Protocol.heartBeat]

end Examples

end AsyncRPC.RpcServer.Server
