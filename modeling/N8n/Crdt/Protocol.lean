import N8n.Lib.Encodings

namespace N8n.Crdt

open N8n.Lib

abbrev Bytes := List UInt8
abbrev DocId := List Char

def encodeMessage (messageType : UInt8) (payload : Bytes) : Bytes := messageType :: payload

def decodeMessage : Bytes → Except String (UInt8 × Bytes)
  | [] => .error "Empty message"
  | messageType :: payload => .ok (messageType, payload)

/-- The two bytes of `docIdLen`, the high one first. -/
def lengthBytes (docIdLen : Nat) : Bytes := [(docIdLen / 256 % 256).toUInt8, (docIdLen % 256).toUInt8]

def encodeWithDocId (messageType : UInt8) (docId : DocId) (payload : Bytes) : Bytes :=
  let docIdBytes := Utf8.encode docId
  messageType :: (lengthBytes docIdBytes.length ++ (docIdBytes ++ payload))

structure Decoded where
  messageType : UInt8
  docId : DocId
  payload : Bytes
  deriving DecidableEq

def declared (high low : UInt8) : Nat := 256 * high.toNat + low.toNat

def decodeWithDocId : Bytes → Except String Decoded
  | messageType :: high :: low :: data =>
    if data.length < declared high low then .error "Message too short for declared docId length"
    else .ok ⟨messageType, Utf8.decode (data.take (declared high low)), data.drop (declared high low)⟩
  | _ => .error "Message too short to contain docId"

def stripDocId (data : Bytes) : Except String Bytes :=
  (decodeWithDocId data).map (fun message => encodeMessage message.messageType message.payload)

def addDocId (docId : DocId) (data : Bytes) : Except String Bytes :=
  (decodeMessage data).map (fun message => encodeWithDocId message.1 docId message.2)

def docIdBytes : Bytes → Bytes
  | _ :: high :: low :: data => data.take (declared high low)
  | _ => []

def Fits (docId : DocId) : Prop := (Utf8.encode docId).length ≤ 65535

theorem declared_lengthBytes (docIdLen : Nat) :
    declared (docIdLen / 256 % 256).toUInt8 (docIdLen % 256).toUInt8 = docIdLen % 65536 := by
  have hhigh : (docIdLen / 256 % 256).toUInt8.toNat = docIdLen / 256 % 256 := by simp
  have hlow : (docIdLen % 256).toUInt8.toNat = docIdLen % 256 := by simp
  rw [declared, hhigh, hlow]
  omega

theorem lengthBytes_declared (high low : UInt8) : lengthBytes (declared high low) = [high, low] := by
  have hhigh := high.toNat_lt
  have hlow := low.toNat_lt
  have h₁ : (declared high low) / 256 % 256 = high.toNat := by
    rw [declared]
    omega
  have h₂ : (declared high low) % 256 = low.toNat := by
    rw [declared]
    omega
  rw [lengthBytes, h₁, h₂]
  simp

/-- What comes back from an encoding: the document id cut at the length modulo 2^16, and the rest as payload. -/
theorem decode_encode (messageType : UInt8) (docId : DocId) (payload : Bytes) :
    decodeWithDocId (encodeWithDocId messageType docId payload) =
      .ok ⟨messageType, Utf8.decode ((Utf8.encode docId).take ((Utf8.encode docId).length % 65536)),
        (Utf8.encode docId).drop ((Utf8.encode docId).length % 65536) ++ payload⟩ := by
  have hle : (Utf8.encode docId).length % 65536 ≤ (Utf8.encode docId).length := Nat.mod_le _ _
  have hlen : ¬ (Utf8.encode docId ++ payload).length < (Utf8.encode docId).length % 65536 := by
    rw [List.length_append]
    omega
  simp only [encodeWithDocId, lengthBytes, List.cons_append, List.nil_append, decodeWithDocId, declared_lengthBytes,
    if_neg hlen, List.take_append_of_le_length hle, List.drop_append_of_le_length hle]

theorem fits_iff_payload (docId : DocId) (payload : Bytes) :
    (Utf8.encode docId).drop ((Utf8.encode docId).length % 65536) ++ payload = payload ↔ Fits docId := by
  rw [List.append_left_eq_self, List.drop_eq_nil_iff, Fits]
  omega

/-- The two halves of a worker message come back exactly when the document id fits the two bytes of its length and does
not begin with a byte order mark, which the decoder takes off. -/
theorem worker_message_iff (messageType : UInt8) (docId : DocId) (payload : Bytes) :
    decodeWithDocId (encodeWithDocId messageType docId payload) = .ok ⟨messageType, docId, payload⟩ ↔
      Fits docId ∧ docId.head? ≠ some Utf8.byteOrderMark := by
  rw [decode_encode, Except.ok.injEq, Decoded.mk.injEq, fits_iff_payload, ← Utf8.decode_encode_iff]
  constructor
  · rintro ⟨-, hdoc, hfits⟩
    rw [Nat.mod_eq_of_lt (Nat.lt_succ_of_le hfits), List.take_length] at hdoc
    exact ⟨hfits, hdoc⟩
  · rintro ⟨hfits, hdoc⟩
    rw [Nat.mod_eq_of_lt (Nat.lt_succ_of_le hfits), List.take_length]
    exact ⟨rfl, hdoc, hfits⟩

theorem strip_add_iff (docId : DocId) (messageType : UInt8) (payload : Bytes) :
    (addDocId docId (messageType :: payload)).bind stripDocId = .ok (messageType :: payload) ↔ Fits docId := by
  simp only [addDocId, decodeMessage, Except.map, Except.bind, stripDocId, decode_encode, encodeMessage]
  rw [Except.ok.injEq, List.cons_inj_right, fits_iff_payload]

theorem decodeWithDocId_ok {data : Bytes} {message : Decoded} (h : decodeWithDocId data = .ok message) :
    ∃ messageType high low rest, data = messageType :: high :: low :: rest ∧ declared high low ≤ rest.length ∧
      message = ⟨messageType, Utf8.decode (rest.take (declared high low)), rest.drop (declared high low)⟩ := by
  match data with
  | [] | [_] | [_, _] => exact nomatch h
  | messageType :: high :: low :: rest =>
    rw [decodeWithDocId] at h
    split_ifs at h with hlen
    exact ⟨messageType, high, low, rest, rfl, Nat.le_of_not_lt hlen, (Except.ok.inj h).symm⟩

/-- An accepted message is the encoding of what it decodes to exactly when its document id is written as the encoder
writes it. -/
theorem encode_decoded_iff {data : Bytes} {message : Decoded} (h : decodeWithDocId data = .ok message) :
    encodeWithDocId message.messageType message.docId message.payload = data ↔ Utf8.Canonical (docIdBytes data) := by
  obtain ⟨messageType, high, low, rest, rfl, hlen, rfl⟩ := decodeWithDocId_ok h
  rw [docIdBytes, ← Utf8.encode_decode_iff]
  constructor
  · intro heq
    have htail := (List.cons.inj (List.cons.inj (List.cons.inj heq).2).2).2
    refine List.append_cancel_right (htail.trans ?_)
    exact (List.take_append_drop (declared high low) rest).symm
  · intro hdoc
    have hshort : (rest.take (declared high low)).length = declared high low := by
      rw [List.length_take, min_eq_left hlen]
    simp only [encodeWithDocId, hdoc, hshort, lengthBytes_declared, List.cons_append, List.nil_append,
      List.take_append_drop]

/-- The worker format, whole: which messages come back, which server messages survive the detour over the worker format,
and which accepted bytes are the encoding of what they decode to. -/
theorem worker_format_iff (messageType : UInt8) (docId : DocId) (payload data : Bytes) (message : Decoded) :
    (decodeWithDocId (encodeWithDocId messageType docId payload) = .ok ⟨messageType, docId, payload⟩ ↔
      Fits docId ∧ docId.head? ≠ some Utf8.byteOrderMark) ∧
    ((addDocId docId (messageType :: payload)).bind stripDocId = .ok (messageType :: payload) ↔ Fits docId) ∧
    (decodeWithDocId data = .ok message →
      (encodeWithDocId message.messageType message.docId message.payload = data ↔
        Utf8.Canonical (docIdBytes data))) :=
  ⟨worker_message_iff messageType docId payload, strip_add_iff docId messageType payload, encode_decoded_iff⟩

theorem worker_format_short :
    encodeWithDocId 0 (Utf8.decode [0x61]) [1] = [0, 0, 1, 0x61, 1] ↔ Utf8.Canonical [0x61] :=
  (worker_format_iff 0 [] [1] [0, 0, 1, 0x61, 1] ⟨0, Utf8.decode [0x61], [1]⟩).2.2 (by decide +kernel)

theorem encode_letters (n : Nat) : Utf8.encode (List.replicate n 'a') = List.replicate n 0x61 := by
  induction n with
  | zero => rfl
  | succ n ih =>
    rw [List.replicate_succ, Utf8.encode_cons, ih]
    rfl

/-- A document id of 65536 letters declares the length 0, and a byte that is no UTF-8 is accepted. -/
theorem long_docId_wraps :
    decodeWithDocId (encodeWithDocId 0 (List.replicate 65536 'a') []) = .ok ⟨0, [], List.replicate 65536 0x61⟩ ∧
    decodeWithDocId [0, 0, 1, 0xFF] = .ok ⟨0, [Utf8.replacement], []⟩ ∧
    encodeWithDocId 0 [Utf8.replacement] [] ≠ [0, 0, 1, 0xFF] := by
  refine ⟨?_, by decide +kernel, by decide +kernel⟩
  have hlen : (List.replicate 65536 (0x61 : UInt8)).length % 65536 = 0 := by rw [List.length_replicate]
  rw [decode_encode, encode_letters, hlen, List.take_zero, List.drop_zero, List.append_nil]
  rfl

end N8n.Crdt
