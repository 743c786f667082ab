import Mathlib.Data.List.Basic
import Mathlib.Logic.Function.Basic
import Mathlib.Tactic.NormNum

/-!
# Protocol packets

A packet on the stream is its length in two bytes, the number of the protocol in two bytes, the length of the parameters in two
bytes and the parameters, the higher byte first. `ProtoProcess.Write` makes it with `string.pack`, `ProtoPacker.pack` makes the
part behind the first length by hand, and `ProtoProcess.Read`, `ProtoProcess.ReadMsg` and `ProtoPacker.unpack` read it. The first
length counts four bytes more than the parameters, so `string.pack` refuses it before the other one stops to fit. `cjson` is a
parameter.
-/

namespace SkynetServer.Proto

inductive LuaError where
  | unsignedOverflow
  | stringDoesNotFit
  | numberExpected
  | valueOutOfRange
  | dataTooShort
  | indexNil
  | arithmeticOnNil
  | closed
deriving DecidableEq

/-! ### `msg_define.lua` -/

def idTbl : List String :=
  ["rpc_client_handshake",
   "rpc_server_handshake",
   "rpc_client_auth",
   "rpc_server_auth",
   "rpc_client_challenge",
   "rpc_server_challenge",
   "rpc_server_login_gameserver",
   "rpc_client_user_info",
   "rpc_server_rank_info",
   "rpc_server_world_chat",
   "rpc_client_word_chat",
   "rpc_client_tips",
   "rpc_server_test_crash",
   "rpc_client_other_login"]

/-- `for id,v in ipairs(id_tbl) do name_tbl[v.name] = id end`. -/
def nameTbl : String → Option Nat :=
  (idTbl.zipIdx 1).foldl (fun tbl v => Function.update tbl v.1 (some v.2)) fun _ => none

def name2Id (name : String) : Option Nat := nameTbl name

def id2Name (id : Nat) : Except LuaError String :=
  if id = 0 then .error .indexNil
  else
    match idTbl[id - 1]? with
    | none => .error .indexNil
    | some name => .ok name

/-! ### `string.pack` and `string.unpack` -/

/-- The format `H`, with `>` in front. -/
def packH (n : Nat) : Except LuaError (List UInt8) :=
  if n < 2 ^ 16 then .ok [UInt8.ofNat ((n >>> 8) &&& 0xff), UInt8.ofNat (n &&& 0xff)] else .error .unsignedOverflow

/-- The format `s2`. -/
def packS2 (s : List UInt8) : Except LuaError (List UInt8) :=
  if s.length < 2 ^ 16 then
    .ok (UInt8.ofNat ((s.length >>> 8) &&& 0xff) :: UInt8.ofNat (s.length &&& 0xff) :: s)
  else .error .stringDoesNotFit

def unpackH : List UInt8 → Except LuaError (Nat × List UInt8)
  | hi :: lo :: rest => .ok (hi.toNat * 256 + lo.toNat, rest)
  | _ => .error .dataTooShort

def unpackS2 (data : List UInt8) : Except LuaError (List UInt8 × List UInt8) := do
  let (len, rest) ← unpackH data
  if len ≤ rest.length then .ok (rest.take len, rest.drop len) else .error .dataTooShort

/-- `string.unpack(">Hs2", data)`. -/
def unpackHs2 (data : List UInt8) : Except LuaError (Nat × List UInt8) := do
  let (n, rest) ← unpackH data
  let (s, _) ← unpackS2 rest
  return (n, s)

/-! ### `utils.lua` -/

/-- `string.char` takes the numbers below 256. -/
def stringChar (n : Nat) : Except LuaError (List UInt8) :=
  if n < 256 then .ok [UInt8.ofNat n] else .error .valueOutOfRange

def int162Bytes (num : Nat) : Except LuaError (List UInt8) := do
  let high := num / 256
  let low := num % 256
  return (← stringChar high) ++ (← stringChar low)

section

variable {Obj : Type} (encode : Obj → List UInt8) (decode : List UInt8 → Except LuaError Obj)

/-! ### `proto_process.lua` -/

/-- What has not been read of the stream of a socket. -/
abbrev Stream := List UInt8

/-- `socket.read (fd, size) or error ()`. -/
def read (size : Nat) (stream : Stream) : Except LuaError (List UInt8 × Stream) :=
  if size ≤ stream.length then .ok (stream.take size, stream.drop size) else .error .closed

/-- `string.unpack` and what follows it in `Read` and `ReadMsg`. -/
def readMsg (msg : List UInt8) : Except LuaError (String × Obj) := do
  let (protoId, params) ← unpackHs2 msg
  let protoName ← id2Name protoId
  let paramTab ← decode params
  return (protoName, paramTab)

def protoRead (stream : Stream) : Except LuaError ((String × Obj) × Stream) := do
  let (s, stream) ← read 2 stream
  let size := (s.getD 0 0).toNat * 256 + (s.getD 1 0).toNat
  let (msg, stream) ← read size stream
  let out ← readMsg decode msg
  return (out, stream)

/-- The bytes that `Write` hands to `socket.write`. -/
def writeData (protoName : String) (msgTab : Obj) : Except LuaError (List UInt8) := do
  let msgStr := encode msgTab
  let len := 2 + 2 + msgStr.length
  let first ← packH len
  let second ← match name2Id protoName with
    | none => .error .numberExpected
    | some id => packH id
  return first ++ second ++ (← packS2 msgStr)

/-- The bytes that have been sent, and how the call ends. -/
def protoWrite (sent : Stream) (protoName : String) (msgTab : Obj) : Stream × Except LuaError Unit :=
  match writeData encode protoName msgTab with
  | .error e => (sent, .error e)
  | .ok data => (sent ++ data, .ok ())

/-! ### `proto_packer.lua` -/

def pack (protoName : String) (msg : Obj) : Except LuaError (List UInt8) :=
  match name2Id protoName with
  | none => .error .arithmeticOnNil
  | some protoId => do
    let paramsStr := encode msg
    return (← int162Bytes protoId) ++ (← int162Bytes paramsStr.length) ++ paramsStr

def unpack : List UInt8 → Except LuaError (String × List UInt8)
  | hi :: lo :: rest => do
    let protoName ← id2Name (hi.toNat * 256 + lo.toNat)
    return (protoName, rest.drop 2)
  | _ => .error .arithmeticOnNil

end

/-! ### Numbers and names -/

/-- A number in two bytes. -/
def twoBytes (n : Nat) : List UInt8 := [UInt8.ofNat (n / 256), UInt8.ofNat (n % 256)]

theorem packH_eq {n : Nat} (h : n < 2 ^ 16) : packH n = .ok (twoBytes n) := by
  have hlow : n &&& 0xff = n % 256 := Nat.and_two_pow_sub_one_eq_mod n 8
  have hhigh : (n >>> 8) &&& 0xff = n / 256 := by
    rw [Nat.shiftRight_eq_div_pow, Nat.and_two_pow_sub_one_eq_mod _ 8]
    omega
  rw [packH, if_pos h, hlow, hhigh]
  rfl

theorem packS2_eq {s : List UInt8} (h : s.length < 2 ^ 16) : packS2 s = .ok (twoBytes s.length ++ s) := by
  have hpack := packH_eq h
  rw [packH, if_pos h] at hpack
  rw [packS2, if_pos h, ← Except.ok.inj hpack]
  rfl

theorem int162Bytes_eq {num : Nat} (h : num < 2 ^ 16) : int162Bytes num = .ok (twoBytes num) := by
  have hhigh : num / 256 < 256 := by omega
  have hlow : num % 256 < 256 := Nat.mod_lt _ (by decide)
  simp only [int162Bytes, stringChar, if_pos hhigh, if_pos hlow]
  rfl

theorem toNat_twoBytes {n : Nat} (h : n < 2 ^ 16) :
    (UInt8.ofNat (n / 256)).toNat * 256 + (UInt8.ofNat (n % 256)).toNat = n := by
  rw [UInt8.toNat_ofNat', UInt8.toNat_ofNat']
  omega

theorem unpackH_twoBytes {n : Nat} (h : n < 2 ^ 16) (rest : List UInt8) : unpackH (twoBytes n ++ rest) = .ok (n, rest) := by
  simp only [twoBytes, List.cons_append, List.nil_append, unpackH, toNat_twoBytes h]

theorem unpackS2_twoBytes {s : List UInt8} (h : s.length < 2 ^ 16) :
    unpackS2 (twoBytes s.length ++ s) = .ok (s, []) := by
  simp only [unpackS2, unpackH_twoBytes h, bind, Except.bind, le_refl, if_true, List.take_length, List.drop_length]

theorem id_of_name {name : String} (h : name ∈ idTbl) :
    ∃ id, name2Id name = some id ∧ id < 2 ^ 16 ∧ id2Name id = .ok name := by
  have hall : ∀ name ∈ idTbl, ∃ id ∈ List.range 15, name2Id name = some id ∧ id2Name id = .ok name := by
    decide
  obtain ⟨id, hid, hname, hback⟩ := hall name h
  exact ⟨id, hname, (List.mem_range.mp hid).trans (by decide), hback⟩

/-! ### Writing and reading -/

section

variable {Obj : Type} {encode : Obj → List UInt8} {decode : List UInt8 → Except LuaError Obj}

/-- A packet without its length. -/
def body (id : Nat) (params : List UInt8) : List UInt8 := twoBytes id ++ twoBytes params.length ++ params

theorem length_body (id : Nat) (params : List UInt8) : (body id params).length = 4 + params.length := by
  simp only [body, twoBytes, List.length_append, List.length_cons, List.length_nil]

theorem unpackHs2_body {id : Nat} {params : List UInt8} (hid : id < 2 ^ 16) (hlength : params.length < 2 ^ 16) :
    unpackHs2 (body id params) = .ok (id, params) := by
  rw [body, List.append_assoc, unpackHs2, unpackH_twoBytes hid]
  simp only [bind, Except.bind, unpackS2_twoBytes hlength]
  rfl

theorem readMsg_body {id : Nat} {name : String} {msgTab : Obj} (hcjson : decode (encode msgTab) = .ok msgTab)
    (hid : id < 2 ^ 16) (hback : id2Name id = .ok name) (hlength : (encode msgTab).length < 2 ^ 16) :
    readMsg decode (body id (encode msgTab)) = .ok (name, msgTab) := by
  rw [readMsg, unpackHs2_body hid hlength]
  simp only [bind, Except.bind, hback, hcjson]
  rfl

theorem unpack_body {id : Nat} {name : String} (params : List UInt8) (hid : id < 2 ^ 16) (hback : id2Name id = .ok name) :
    unpack (body id params) = .ok (name, params) := by
  simp only [body, twoBytes, List.cons_append, List.nil_append, unpack, toNat_twoBytes hid, hback]
  rfl

theorem pack_eq {id : Nat} {name : String} (msgTab : Obj) (hname : name2Id name = some id) (hid : id < 2 ^ 16)
    (hlength : (encode msgTab).length < 2 ^ 16) : pack encode name msgTab = .ok (body id (encode msgTab)) := by
  simp only [pack, hname, int162Bytes_eq hid, int162Bytes_eq hlength]
  rfl

theorem writeData_eq {id : Nat} {name : String} (msgTab : Obj) (hname : name2Id name = some id) (hid : id < 2 ^ 16)
    (hlength : 4 + (encode msgTab).length < 2 ^ 16) :
    writeData encode name msgTab = .ok (twoBytes (4 + (encode msgTab).length) ++ body id (encode msgTab)) := by
  have hparams : (encode msgTab).length < 2 ^ 16 := by omega
  simp only [writeData, hname, packH_eq hlength, packH_eq hid, packS2_eq hparams, body, List.append_assoc]
  rfl

theorem read_append (bytes rest : Stream) : read bytes.length (bytes ++ rest) = .ok (bytes, rest) := by
  rw [read, if_pos (by rw [List.length_append]; omega), List.take_left, List.drop_left]

theorem protoRead_packet {msg : List UInt8} {out : String × Obj} (hlength : msg.length < 2 ^ 16)
    (hmsg : readMsg decode msg = .ok out) (rest : Stream) :
    protoRead decode (twoBytes msg.length ++ msg ++ rest) = .ok (out, rest) := by
  have hsize : ((twoBytes msg.length).getD 0 0).toNat * 256 + ((twoBytes msg.length).getD 1 0).toNat = msg.length :=
    toNat_twoBytes hlength
  have hfirst : read 2 (twoBytes msg.length ++ (msg ++ rest)) = .ok (twoBytes msg.length, msg ++ rest) :=
    read_append (twoBytes msg.length) (msg ++ rest)
  rw [List.append_assoc, protoRead, hfirst]
  simp only [bind, Except.bind, hsize, read_append, hmsg]
  rfl

/-- **Packets.** A packet that fits is read back from the stream with nothing behind it taken, the two packers agree on it, and
one that does not fit is not sent. -/
theorem packets_round_trip (hcjson : ∀ msgTab, decode (encode msgTab) = .ok msgTab) {name : String} (hname : name ∈ idTbl)
    (msgTab : Obj) (sent : Stream) :
    (4 + (encode msgTab).length ≤ 65535 → ∃ data packed,
      protoWrite encode sent name msgTab = (sent ++ data, .ok ()) ∧
      (∀ rest, protoRead decode (data ++ rest) = .ok ((name, msgTab), rest)) ∧
      pack encode name msgTab = .ok packed ∧ data = twoBytes packed.length ++ packed ∧
      readMsg decode packed = .ok (name, msgTab) ∧ unpack packed = .ok (name, encode msgTab)) ∧
    (65535 < 4 + (encode msgTab).length → ∃ e, protoWrite encode sent name msgTab = (sent, .error e)) := by
  obtain ⟨id, hid, hlt, hback⟩ := id_of_name hname
  constructor
  · intro hle
    have hlength : 4 + (encode msgTab).length < 2 ^ 16 := by omega
    have hparams : (encode msgTab).length < 2 ^ 16 := by omega
    have hmsg := readMsg_body (hcjson msgTab) hlt hback hparams
    refine ⟨twoBytes (body id (encode msgTab)).length ++ body id (encode msgTab), body id (encode msgTab), ?_, ?_,
      pack_eq msgTab hid hlt hparams, rfl, hmsg, unpack_body _ hlt hback⟩
    · rw [protoWrite, writeData_eq msgTab hid hlt hlength, length_body]
    · exact protoRead_packet (by rw [length_body]; exact hlength) hmsg
  · intro hlong
    refine ⟨.unsignedOverflow, ?_⟩
    have hpack : packH (2 + 2 + (encode msgTab).length) = .error .unsignedOverflow := by
      rw [packH, if_neg (by omega)]
    simp only [protoWrite, writeData, hpack]
    rfl

end

/-- How `cjson` writes a boolean. -/
def cjsonEncode (b : Bool) : List UInt8 := (if b then "true" else "false").toUTF8.data.toList

def cjsonDecode (bytes : List UInt8) : Except LuaError Bool :=
  if bytes = cjsonEncode true then .ok true else if bytes = cjsonEncode false then .ok false else .error .dataTooShort

/-- A boolean as the parameter of a tip. -/
theorem packets_round_trip_boolean : ∃ data packed,
    protoWrite cjsonEncode [] "rpc_client_tips" true = ([] ++ data, .ok ()) ∧
      (∀ rest, protoRead cjsonDecode (data ++ rest) = .ok (("rpc_client_tips", true), rest)) ∧
      pack cjsonEncode "rpc_client_tips" true = .ok packed ∧ data = twoBytes packed.length ++ packed ∧
      readMsg cjsonDecode packed = .ok ("rpc_client_tips", true) ∧
      unpack packed = .ok ("rpc_client_tips", cjsonEncode true) :=
  (packets_round_trip (by decide) (by decide) true []).1 (by decide)

end SkynetServer.Proto
