import SkynetServer.ServicePackage.NewMessage

/-!
# The package service: requests and packages

`message_handler` of `service_package.c`. An `R` command asks for a package. Requests wait in one queue, packages in the
other, and after every message one of the two is empty: the first request gets the first package, and so on. When the
socket is closed the requests that still wait get an error, and so does every later one. The texts that go to the log are
left out.
-/

namespace SkynetServer.ServicePackage

open Lib (RingBuffer)

inductive SocketType where
  | data
  | connect
  | close
  | error
  | warning
  | other
deriving DecidableEq

structure SocketMessage where
  type : SocketType
  id : Int
  buffer : List UInt8 := []
deriving DecidableEq

/-- A message to the service, by its type. -/
inductive Message where
  | text (session : Int) (source : Nat) (msg : List Char)
  | client (msg : List UInt8)
  | response
  | socket (smsg : SocketMessage)
  | error
  | other (session : Int) (source : Nat)
deriving DecidableEq

/-- The numbers in the text of `report_info`. -/
structure Info where
  req : Nat
  resp : Nat
  uncomplete : Int
  uncompleteSz : Nat
deriving DecidableEq

/-- What the service sends or asks of the framework. -/
inductive Output where
  /-- The answer to an `R` command, a package or `PTYPE_ERROR`. -/
  | reply (req : Request) (resp : Option Response)
  | info (req : Request) (info : Info)
  | error (req : Request)
  | manager (dest : Nat) (text : String)
  | send (bytes : List UInt8)
  | shutdown
  | timeout
  | exit
deriving DecidableEq

theorem size_of_queuePop {α : Type} {q q' : RingBuffer α} {value : α} (h : queuePop q = some (value, q')) :
    q'.size < q.size := by
  rw [← RingBuffer.length_contents, ← RingBuffer.length_contents, contents_of_queuePop h]
  exact Nat.lt_succ_self _

namespace Package

/-- The loop of `service_exit`. -/
def rejectAll (P : Package) : Package × List Output :=
  match h : queuePop P.request with
  | none => (P, [])
  | some (req, request) =>
    have : request.size < P.request.size := size_of_queuePop h
    let (P', out) := rejectAll { P with request }
    (P', .reply req none :: out)
termination_by P.request.size

def serviceExit (P : Package) : Package × List Output :=
  let (P, out) := { P with closed := true }.rejectAll
  (P, out ++ [.manager P.manager "CLOSED", .exit])

def reportInfo (P : Package) (req : Request) : Output :=
  let (uncomplete, uncompleteSz) : Int × Nat :=
    if P.headerSz ≠ 0 then (-1, 0)
    else if P.uncompleteSz = 0 then (0, 0)
    else (P.uncompleteSz, P.uncomplete.sz)
  .info req ⟨queueSize P.request, queueSize P.response, uncomplete, uncompleteSz⟩

/-- No result stands for a failed assertion. -/
def command (P : Package) (session : Int) (source : Nat) (msg : List Char) : Option (Package × List Output) :=
  match msg.head? with
  | some 'R' =>
    if P.closed then some (P, [.reply ⟨source, session⟩ none])
    else
      match queuePop P.response with
      | some (resp, response) =>
        if queueEmpty P.request then some ({ P with response }, [.reply ⟨source, session⟩ (some resp)]) else none
      | none => some ({ P with request := queuePush P.request ⟨source, session⟩ }, [])
  | some 'K' => some (P, [.shutdown])
  | some 'I' => some (P, [P.reportInfo ⟨source, session⟩])
  | _ => some (P, [.error ⟨source, session⟩])

/-- `response`, which is also the name of a field. -/
def respond (P : Package) : Package × List Output :=
  match h : queuePop P.request with
  | none => (P, [])
  | some (req, request) =>
    match queuePop P.response with
    | none => (P, [])
    | some (resp, response) =>
      have : request.size < P.request.size := size_of_queuePop h
      let (P', out) := respond { P with request, response }
      (P', .reply req (some resp) :: out)
termination_by P.request.size

def socketMessage (P : Package) (smsg : SocketMessage) : Package × List Output :=
  match smsg.type with
  | .connect => if P.init = false ∧ smsg.id = P.fd then ({ P with init := true }, [.manager P.manager "SUCC"]) else (P, [])
  | .close | .error =>
    let (P, failed) : Package × List Output :=
      if P.init = false ∧ smsg.id = P.fd then ({ P with init := true }, [.manager P.manager "FAIL"]) else (P, [])
    if smsg.id ≠ P.fd then (P, failed)
    else
      let (P, answered) := P.respond
      let (P, rejected) := P.serviceExit
      (P, failed ++ answered ++ rejected)
  | .data => (P.newMessage smsg.buffer).respond
  | .warning => (P, [])
  | .other => (P, [])

/-- `heartbeat`, which is also the name of a field. -/
def beat (P : Package) : Package × List Output :=
  if P.recv = P.heartbeat then (P, if P.closed then [] else [.shutdown])
  else ({ P with heartbeat := 0, recv := 0 }, [.timeout])

def messageHandler (P : Package) : Message → Option (Package × List Output)
  | .text session source msg => P.command session source msg
  | .client msg => some (P, ((sendOut msg).map Output.send).toList)
  | .response => some P.beat
  | .socket smsg => some (P.socketMessage smsg)
  | .error => some (P, [])
  | .other session source => some (P, if session > 0 then [.error ⟨source, session⟩] else [])

end Package

def packageInit (manager : Nat) (fd : Int) : Package := { packageCreate with manager, fd }.beat.1

/-- The messages of a run, and what the service has sent. -/
def handleAll (P : Package) (messages : List Message) : Option (Package × List Output) :=
  messages.foldlM (fun (state : Package × List Output) message =>
    (state.1.messageHandler message).map fun (P, out) => (P, state.2 ++ out)) (P, [])

/-! ### The two loops -/

namespace Package

theorem rejectAll_eq (P : Package) : ∃ request, request.contents = [] ∧
    P.rejectAll = ({ P with request }, P.request.contents.map fun req => .reply req none) := by
  fun_induction rejectAll P with
  | case1 P h =>
    have hnil := (queuePop_eq_none_iff _).mp h
    exact ⟨P.request, hnil, by simp [hnil]⟩
  | case2 P req request h _ P' out heq ih =>
    obtain ⟨request', hnil, hreject⟩ := ih
    obtain ⟨rfl, rfl⟩ := Prod.mk.inj (heq.symm.trans hreject)
    exact ⟨request', hnil, by simp [contents_of_queuePop h]⟩

theorem serviceExit_eq (P : Package) : ∃ request, request.contents = [] ∧
    P.serviceExit = ({ P with closed := true, request },
      (P.request.contents.map fun req => .reply req none) ++ [.manager P.manager "CLOSED", .exit]) := by
  obtain ⟨request, hnil, hreject⟩ := { P with closed := true }.rejectAll_eq
  exact ⟨request, hnil, by rw [serviceExit, hreject]⟩

/-- Requests and packages are paired until one of the queues is empty. -/
theorem respond_eq (P : Package) : ∃ request response answered sent,
    P.request.contents = answered ++ request.contents ∧ P.response.contents = sent ++ response.contents ∧
      answered.length = sent.length ∧ (request.contents = [] ∨ response.contents = []) ∧
      P.respond = ({ P with request, response }, List.zipWith (fun req resp => .reply req (some resp)) answered sent) := by
  fun_induction respond P with
  | case1 P h =>
    have hnil := (queuePop_eq_none_iff _).mp h
    exact ⟨P.request, P.response, [], [], rfl, rfl, rfl, .inl hnil, rfl⟩
  | case2 P req request h h' =>
    have hnil := (queuePop_eq_none_iff _).mp h'
    exact ⟨P.request, P.response, [], [], rfl, rfl, rfl, .inr hnil, rfl⟩
  | case3 P req request h resp response h' _ P' out heq ih =>
    obtain ⟨request', response', answered, sent, hrequest, hresponse, hlength, hone, hrespond⟩ := ih
    obtain ⟨rfl, rfl⟩ := Prod.mk.inj (heq.symm.trans hrespond)
    refine ⟨request', response', req :: answered, resp :: sent, ?_, ?_, congrArg Nat.succ hlength, hone, rfl⟩
    · rw [contents_of_queuePop h, hrequest]
      rfl
    · rw [contents_of_queuePop h', hresponse]
      rfl

end Package

/-! ### Pairing -/

/-- The answers to `R` commands. -/
def replies (out : List Output) : List (Request × Option Response) :=
  out.filterMap fun
    | .reply req resp => some (req, resp)
    | _ => none

/-- The `R` command that a message is. -/
def Message.request? : Message → Option Request
  | .text session source msg => if msg.head? = some 'R' then some ⟨source, session⟩ else none
  | _ => none

/-- The bytes of the socket that a message brings. -/
def Message.data : Message → List UInt8
  | .socket smsg => if smsg.type = .data then smsg.buffer else []
  | _ => []

/-- The close or the error of the socket `fd`. -/
def Message.closes (fd : Int) : Message → Bool
  | .socket smsg => (smsg.type = .close || smsg.type = .error) && smsg.id = fd
  | _ => false

/-- `requests` have been made and `packages` received: the first requests have been answered with the first packages, the
next ones with an error, and the others wait. -/
def Answered (P : Package) (requests : List Request) (packages : List Response)
    (answers : List (Request × Option Response)) : Prop :=
  ∃ answered failed sent, requests = answered ++ failed ++ P.request.contents ∧
    packages = sent ++ P.response.contents ∧ answered.length = sent.length ∧
    answers = List.zipWith (fun req resp => (req, some resp)) answered sent ++ failed.map (fun req => (req, none)) ∧
    (P.closed = false → failed = [])

structure Paired (P : Package) (requests : List Request) (packages : List Response)
    (answers : List (Request × Option Response)) : Prop where
  answered : Answered P requests packages answers
  one : P.request.contents = [] ∨ P.response.contents = []
  closed : P.closed = true → P.request.contents = []

theorem replies_append (out out' : List Output) : replies (out ++ out') = replies out ++ replies out' :=
  List.filterMap_append

theorem replies_zipWith (answered : List Request) (sent : List Response) :
    replies (List.zipWith (fun req resp => .reply req (some resp)) answered sent) =
      List.zipWith (fun req resp => (req, some resp)) answered sent := by
  induction answered generalizing sent with
  | nil => rfl
  | cons req answered ih =>
    cases sent with
    | nil => rfl
    | cons resp sent => exact congrArg _ (ih sent)

theorem replies_reject (requests : List Request) :
    replies (requests.map fun req => .reply req none) = requests.map fun req => (req, none) := by
  induction requests with
  | nil => rfl
  | cons req requests ih => exact congrArg _ ih

namespace Paired

variable {P : Package} {requests : List Request} {packages : List Response}
  {answers : List (Request × Option Response)}

theorem respond {P : Package} (h : Answered P requests packages answers)
    (hclosed : P.closed = true → P.request.contents = []) :
    Paired P.respond.1 requests packages (answers ++ replies P.respond.2) := by
  obtain ⟨answered, failed, sent, hrequests, hpackages, hlength, hanswers, hfailed⟩ := h
  obtain ⟨request, response, answered', sent', hrequest, hresponse, hlength', hone, hrespond⟩ := P.respond_eq
  rw [hrespond]
  refine ⟨?_, hone, fun hclosed' => ?_⟩
  · cases hstate : P.closed with
    | false =>
      obtain rfl := hfailed hstate
      refine ⟨answered ++ answered', [], sent ++ sent', ?_, ?_, ?_, ?_, fun _ => rfl⟩
      · simp [hrequests, hrequest]
      · simp [hpackages, hresponse]
      · simp [hlength, hlength']
      · rw [hanswers, replies_zipWith, List.zipWith_append hlength]
        simp
    | true =>
      have hnil := hclosed hstate
      rw [hrequest] at hnil
      obtain ⟨rfl, hnil'⟩ := List.append_eq_nil_iff.mp hnil
      obtain rfl : sent' = [] := List.eq_nil_of_length_eq_zero hlength'.symm
      refine ⟨answered, failed, sent, ?_, ?_, hlength, ?_, fun hopen => ?_⟩
      · rw [hrequests, hrequest]
        rfl
      · rw [hpackages, hresponse]
        rfl
      · rw [hanswers]
        simp [replies]
      · cases hopen
  · have hnil := hclosed hclosed'
    rw [hrequest] at hnil
    exact (List.append_eq_nil_iff.mp hnil).2

theorem serviceExit (h : Paired P requests packages answers) :
    Paired P.serviceExit.1 requests packages (answers ++ replies P.serviceExit.2) ∧ P.serviceExit.1.closed = true := by
  obtain ⟨answered, failed, sent, hrequests, hpackages, hlength, hanswers, -⟩ := h.answered
  obtain ⟨request, hnil, hexit⟩ := P.serviceExit_eq
  rw [hexit]
  refine ⟨⟨⟨answered, failed ++ P.request.contents, sent, ?_, hpackages, hlength, ?_, fun hopen => ?_⟩, .inl hnil,
    fun _ => hnil⟩, rfl⟩
  · simp [hrequests, hnil]
  · rw [hanswers, replies_append, replies_reject]
    simp [replies]
  · cases hopen

theorem request (h : Paired P requests packages answers) (session : Int) (source : Nat) {msg : List Char}
    (hmsg : msg.head? = some 'R') : ∃ P' out, P.command session source msg = some (P', out) ∧
      Paired P' (requests ++ [⟨source, session⟩]) packages (answers ++ replies out) ∧
      ∃ request response, P' = { P with request, response } := by
  obtain ⟨answered, failed, sent, hrequests, hpackages, hlength, hanswers, hfailed⟩ := h.answered
  unfold Package.command
  rw [hmsg]
  by_cases hclosed : P.closed = true
  · have hnil := h.closed hclosed
    refine ⟨P, _, if_pos hclosed, ⟨⟨answered, failed ++ [⟨source, session⟩], sent, ?_, hpackages, hlength, ?_, ?_⟩, h.one,
      h.closed⟩, P.request, P.response, rfl⟩
    · simp [hrequests, hnil]
    · simp [hanswers, replies]
    · rw [hclosed]
      intro hopen
      cases hopen
  · obtain rfl := hfailed (by simpa using hclosed)
    rw [if_neg hclosed]
    cases hpop : queuePop P.response with
    | none =>
      have hnil := (queuePop_eq_none_iff _).mp hpop
      refine ⟨_, _, rfl, ⟨⟨answered, [], sent, ?_, hpackages, hlength, ?_, fun _ => rfl⟩, .inr hnil,
        fun hclosed' => absurd hclosed' hclosed⟩, _, _, rfl⟩
      · simp [hrequests]
      · simp [hanswers, replies]
    | some popped =>
      obtain ⟨resp, response⟩ := popped
      have hcons := contents_of_queuePop hpop
      have hnil : P.request.contents = [] := by
        refine h.one.resolve_right fun hnone => ?_
        rw [hnone] at hcons
        cases hcons
      dsimp only
      rw [if_pos ((queueEmpty_iff _).mpr hnil)]
      refine ⟨_, _, rfl, ⟨⟨answered ++ [⟨source, session⟩], [], sent ++ [resp], ?_, ?_, ?_, ?_, fun _ => rfl⟩, .inl hnil,
        fun _ => hnil⟩, _, _, rfl⟩
      · simp [hrequests, hnil]
      · simp [hpackages, hcons]
      · simp [hlength]
      · rw [hanswers, List.map_nil, List.append_nil, List.append_nil, List.zipWith_append hlength]
        simp [replies]

end Paired

theorem Keeps.of_queues {P : Package} {kept : List UInt8} (h : Keeps P kept) (request : RingBuffer Request)
    (response : RingBuffer Response) (closed : Bool) : Keeps { P with request, response, closed } kept := by
  cases h with
  | idle huncomplete hheader => exact .idle huncomplete hheader
  | half huncomplete hheader => exact .half (P := { P with request, response, closed }) huncomplete hheader
  | body hheader hsz hlength hcopied huncomplete =>
    exact .body (P := { P with request, response, closed }) hheader hsz hlength hcopied huncomplete

theorem Keeps.of_counters {P : Package} {kept : List UInt8} (h : Keeps P kept) (init : Bool) (heartbeat recv : Int) :
    Keeps { P with init, heartbeat, recv } kept := by
  cases h with
  | idle huncomplete hheader => exact .idle huncomplete hheader
  | half huncomplete hheader => exact .half (P := { P with init, heartbeat, recv }) huncomplete hheader
  | body hheader hsz hlength hcopied huncomplete =>
    exact .body (P := { P with init, heartbeat, recv }) hheader hsz hlength hcopied huncomplete

/-! ### Runs -/

/-- The `R` commands among the messages. -/
def requests (messages : List Message) : List Request := messages.filterMap Message.request?

/-- What the socket has delivered. -/
def stream (messages : List Message) : List UInt8 := messages.flatMap Message.data

/-- The packages in what the socket has delivered. -/
def packages (messages : List Message) : List Response := (framing.parse (stream messages)).1.map Response.ofBytes

/-- The state of a service after the messages. -/
structure Running (fd : Int) (messages : List Message) (P : Package) (out : List Output) : Prop where
  paired : Paired P (requests messages) (packages messages) (replies out)
  keeps : Keeps P (framing.parse (stream messages)).2
  socket : P.fd = fd
  closed : messages.any (Message.closes fd) = true → P.closed = true

namespace Running

variable {fd : Int} {messages : List Message} {P : Package} {out : List Output}

theorem init (manager : Nat) (fd : Int) : Running fd [] (packageInit manager fd) [] where
  paired := ⟨⟨[], [], [], rfl, by simp [packages, stream, parse_nil]; rfl, rfl, rfl, fun _ => rfl⟩, .inl rfl, fun _ => rfl⟩
  keeps := by
    change Keeps _ (framing.parse []).2
    rw [parse_nil]
    have hneg : (-1 : Int) < 0 := by decide
    exact .idle hneg rfl
  socket := rfl
  closed := fun h => by cases h

theorem stream_snoc (messages : List Message) (message : Message) :
    stream (messages ++ [message]) = stream messages ++ message.data := by
  simp [stream]

theorem packages_congr {messages messages' : List Message} (h : stream messages' = stream messages) :
    packages messages' = packages messages := by
  rw [packages, h, packages]

theorem quiet (h : Running fd messages P out) {message : Message} {out' : List Output} (hrequest : message.request? = none)
    (hdata : message.data = []) (hcloses : message.closes fd = false) (hout : replies out' = []) (init : Bool)
    (heartbeat recv : Int) :
    Running fd (messages ++ [message]) { P with init, heartbeat, recv } (out ++ out') := by
  have hrequests : requests (messages ++ [message]) = requests messages := by simp [requests, hrequest]
  have hstream : stream (messages ++ [message]) = stream messages := by rw [stream_snoc, hdata, List.append_nil]
  refine ⟨?_, ?_, h.socket, fun hclosed => h.closed ?_⟩
  · rw [hrequests, packages_congr hstream, replies_append, hout, List.append_nil]
    exact ⟨h.paired.answered, h.paired.one, h.paired.closed⟩
  · rw [hstream]
    exact h.keeps.of_counters init heartbeat recv
  · simpa [hcloses] using hclosed

theorem command (h : Running fd messages P out) (session : Int) (source : Nat) (msg : List Char) :
    ∃ P' out', P.command session source msg = some (P', out') ∧
      Running fd (messages ++ [.text session source msg]) P' (out ++ out') := by
  by_cases hmsg : msg.head? = some 'R'
  · obtain ⟨P', out', hcommand, hpaired, request, response, rfl⟩ := h.paired.request session source hmsg
    have hstream : stream (messages ++ [.text session source msg]) = stream messages := by
      rw [stream_snoc]
      exact List.append_nil _
    refine ⟨_, out', hcommand, ?_, ?_, h.socket, fun hclosed => h.closed ?_⟩
    · rw [packages_congr hstream, replies_append]
      simpa [requests, Message.request?, hmsg] using hpaired
    · rw [hstream]
      exact h.keeps.of_queues request response P.closed
    · simpa [Message.closes] using hclosed
  · have hquiet : ∀ {out' : List Output}, replies out' = [] →
        Running fd (messages ++ [.text session source msg]) P (out ++ out') := fun hout =>
      h.quiet (by simp [Message.request?, hmsg]) rfl rfl hout P.init P.heartbeat P.recv
    unfold Package.command
    split
    · rename_i heq
      exact absurd heq hmsg
    · exact ⟨P, _, rfl, hquiet rfl⟩
    · exact ⟨P, _, rfl, hquiet rfl⟩
    · exact ⟨P, _, rfl, hquiet rfl⟩

theorem data (h : Running fd messages P out) (id : Int) (buffer : List UInt8) :
    Running fd (messages ++ [.socket ⟨.data, id, buffer⟩]) (P.newMessage buffer).respond.1
      (out ++ (P.newMessage buffer).respond.2) := by
  obtain ⟨hresponse, hkeeps, hrequest, hclosed, hfd⟩ := parses_newMessage h.keeps buffer
  have hstream : stream (messages ++ [.socket ⟨.data, id, buffer⟩]) = stream messages ++ buffer := stream_snoc _ _
  have hparse := framing.parse_append (stream messages) buffer
  have hanswered : Answered (P.newMessage buffer) (requests messages)
      (packages (messages ++ [.socket ⟨.data, id, buffer⟩])) (replies out) := by
    obtain ⟨answered, failed, sent, hrequests, hpackages, hlength, hanswers, hfailed⟩ := h.paired.answered
    refine ⟨answered, failed, sent, hrequest ▸ hrequests, ?_, hlength, hanswers, hclosed ▸ hfailed⟩
    rw [packages, hstream, hparse, List.map_append, hresponse, ← List.append_assoc, ← hpackages]
    rfl
  have hpaired := Paired.respond hanswered (fun hc => hrequest ▸ h.paired.closed (hclosed ▸ hc))
  obtain ⟨request, response, answered, sent, -, -, -, -, hrespond⟩ := (P.newMessage buffer).respond_eq
  have hrequests : requests (messages ++ [.socket ⟨.data, id, buffer⟩]) = requests messages := by
    simp [requests, Message.request?]
  refine ⟨?_, ?_, ?_, fun hany => ?_⟩
  · rw [hrequests, replies_append]
    exact hpaired
  · rw [hstream, hparse, hrespond]
    exact hkeeps.of_queues request response _
  · rw [hrespond]
    exact hfd.trans h.socket
  · rw [hrespond]
    refine hclosed.trans (h.closed ?_)
    simpa [Message.closes] using hany

theorem close (h : Running fd messages P out) {message : Message} {failed : List Output}
    (hrequest : message.request? = none) (hdata : message.data = []) (hfailed : replies failed = []) (init : Bool) :
    Running fd (messages ++ [message]) ({ P with init }.respond.1.serviceExit).1
      (out ++ (failed ++ { P with init }.respond.2 ++ ({ P with init }.respond.1.serviceExit).2)) := by
  have hrespond := Paired.respond (P := { P with init }) h.paired.answered h.paired.closed
  have hexit := hrespond.serviceExit
  obtain ⟨request, response, answered, sent, -, -, -, -, heq⟩ := { P with init }.respond_eq
  obtain ⟨request', -, heq'⟩ := ({ P with init }.respond.1).serviceExit_eq
  have hrequests : requests (messages ++ [message]) = requests messages := by simp [requests, hrequest]
  have hstream : stream (messages ++ [message]) = stream messages := by rw [stream_snoc, hdata, List.append_nil]
  refine ⟨?_, ?_, ?_, fun _ => hexit.2⟩
  · rw [hrequests, packages_congr hstream, replies_append, replies_append, replies_append, hfailed, List.nil_append,
      ← List.append_assoc]
    exact hexit.1
  · rw [hstream, heq', heq]
    exact (h.keeps.of_counters init P.heartbeat P.recv).of_queues request' response true
  · rw [heq', heq]
    exact h.socket

theorem socketMessage_close {id : Int} (hid : id = P.fd) (buffer : List UInt8) : ∃ init failed, replies failed = [] ∧
    P.socketMessage ⟨.close, id, buffer⟩ = (({ P with init }.respond.1.serviceExit).1,
      failed ++ { P with init }.respond.2 ++ ({ P with init }.respond.1.serviceExit).2) := by
  subst hid
  cases hinit : P.init with
  | false =>
    refine ⟨true, [.manager P.manager "FAIL"], rfl, ?_⟩
    simp [Package.socketMessage, hinit]
  | true =>
    have hsame : { P with init := true } = P := by rw [← hinit]
    refine ⟨true, [], rfl, ?_⟩
    rw [hsame]
    simp [Package.socketMessage, hinit]

theorem socketMessage (h : Running fd messages P out) (smsg : SocketMessage) :
    Running fd (messages ++ [.socket smsg]) (P.socketMessage smsg).1 (out ++ (P.socketMessage smsg).2) := by
  obtain ⟨type, id, buffer⟩ := smsg
  have hquiet : ∀ {out' : List Output} (init : Bool), (Message.socket ⟨type, id, buffer⟩).data = [] →
      (Message.socket ⟨type, id, buffer⟩).closes fd = false → replies out' = [] →
      Running fd (messages ++ [.socket ⟨type, id, buffer⟩]) { P with init } (out ++ out') :=
    fun init hdata hcloses hout => h.quiet rfl hdata hcloses hout init P.heartbeat P.recv
  have hclose : type = .close ∨ type = .error →
      Running fd (messages ++ [.socket ⟨type, id, buffer⟩]) (P.socketMessage ⟨type, id, buffer⟩).1
        (out ++ (P.socketMessage ⟨type, id, buffer⟩).2) := by
    intro htype
    have hdata : (Message.socket ⟨type, id, buffer⟩).data = [] := by
      rcases htype with rfl | rfl <;> rfl
    have heq : P.socketMessage ⟨type, id, buffer⟩ = P.socketMessage ⟨.close, id, buffer⟩ := by
      rcases htype with rfl | rfl <;> rfl
    rw [heq]
    by_cases hid : id = P.fd
    · obtain ⟨init, failed, hfailed, hclosed⟩ := socketMessage_close hid buffer
      rw [hclosed]
      exact h.close rfl hdata hfailed init
    · simp only [Package.socketMessage, hid, and_false, if_false, ne_eq, not_false_eq_true, if_true]
      refine hquiet P.init hdata ?_ rfl
      rw [h.socket] at hid
      simp [Message.closes, hid]
  cases type with
  | data => exact h.data id buffer
  | connect =>
    simp only [Package.socketMessage]
    split
    · exact hquiet true rfl rfl rfl
    · exact hquiet P.init rfl rfl rfl
  | close => exact hclose (.inl rfl)
  | error => exact hclose (.inr rfl)
  | warning => exact hquiet P.init rfl rfl rfl
  | other => exact hquiet P.init rfl rfl rfl

end Running

theorem running_messageHandler {fd : Int} {messages : List Message} {P : Package} {out : List Output}
    (h : Running fd messages P out) (message : Message) :
    ∃ P' out', P.messageHandler message = some (P', out') ∧ Running fd (messages ++ [message]) P' (out ++ out') := by
  cases message with
  | text session source msg => exact h.command session source msg
  | client msg =>
    refine ⟨P, _, rfl, h.quiet rfl rfl rfl ?_ P.init P.heartbeat P.recv⟩
    cases sendOut msg <;> rfl
  | response =>
    simp only [Package.messageHandler, Package.beat]
    split
    · refine ⟨P, _, rfl, h.quiet rfl rfl rfl ?_ P.init P.heartbeat P.recv⟩
      split <;> rfl
    · exact ⟨_, _, rfl, h.quiet rfl rfl rfl rfl P.init 0 0⟩
  | socket smsg => exact ⟨_, _, rfl, h.socketMessage smsg⟩
  | error => exact ⟨P, [], rfl, h.quiet rfl rfl rfl rfl P.init P.heartbeat P.recv⟩
  | other session source =>
    refine ⟨P, _, rfl, h.quiet rfl rfl rfl ?_ P.init P.heartbeat P.recv⟩
    split <;> rfl

theorem running_handleAll (manager : Nat) (fd : Int) (messages : List Message) :
    ∃ P out, handleAll (packageInit manager fd) messages = some (P, out) ∧ Running fd messages P out := by
  induction messages using List.reverseRecOn with
  | nil => exact ⟨_, _, rfl, Running.init manager fd⟩
  | append_singleton messages message ih =>
    obtain ⟨P, out, hrun, hrunning⟩ := ih
    obtain ⟨P', out', hhandle, hrunning'⟩ := running_messageHandler hrunning message
    refine ⟨P', out ++ out', ?_, hrunning'⟩
    unfold handleAll at hrun ⊢
    rw [List.foldlM_append, hrun]
    simp [hhandle]

/-- **Pairing.** In every run no assertion fails, and after every message one of the queues is empty. Of the `R` commands made
so far, the first have been answered with the first packages received, in order, the next ones with an error, each of them
once, and the others not; and once the close or the error of the socket has been handled there are no others. -/
theorem requests_paired (manager : Nat) (fd : Int) (messages : List Message) :
    ∃ P out, handleAll (packageInit manager fd) messages = some (P, out) ∧
      (queueEmpty P.request = true ∨ queueEmpty P.response = true) ∧
      ∃ answered failed waiting sent ready, requests messages = answered ++ failed ++ waiting ∧
        packages messages = sent ++ ready ∧ answered.length = sent.length ∧
        replies out = List.zipWith (fun req resp => (req, some resp)) answered sent ++
          failed.map (fun req => (req, none)) ∧
        (messages.any (Message.closes fd) = true → waiting = []) := by
  obtain ⟨P, out, hrun, hrunning⟩ := running_handleAll manager fd messages
  obtain ⟨answered, failed, sent, hrequests, hpackages, hlength, hanswers, -⟩ := hrunning.paired.answered
  refine ⟨P, out, hrun, ?_, answered, failed, P.request.contents, sent, P.response.contents, hrequests, hpackages, hlength,
    hanswers, fun hclosed => hrunning.paired.closed (hrunning.closed hclosed)⟩
  rw [queueEmpty_iff, queueEmpty_iff]
  exact hrunning.paired.one

end SkynetServer.ServicePackage
