import MpcServer.Sample

/-!
# Texts that read back

The crates of a scenario read the texts that the scenario lists. The crates
here write the same texts and read every one of them back, in base64 and in
JSON, whatever the message.
-/

namespace MpcServer.Sample

open Rust

/-! ## Base64 -/

theorem base64Digit_mod (n : Nat) : base64Digit (n % 64) = base64Digit n := by
  simp [base64Digit]

theorem base64Value_digit (n : Nat) : base64Value (base64Digit n) = some (n % 64) := by
  have hall : ∀ m < 64, base64Value (base64Digit m) = some m := by decide +kernel
  rw [← base64Digit_mod, hall _ (Nat.mod_lt _ (by decide))]

theorem base64Digit_ne_pad (n : Nat) : base64Digit n ≠ '=' := by
  have hall : ∀ m < 64, base64Digit m ≠ '=' := by decide +kernel
  exact base64Digit_mod n ▸ hall _ (Nat.mod_lt _ (by decide))

theorem uint8_ofNat_eq {n : Nat} {a : UInt8} (h : n % 256 = a.toNat) : UInt8.ofNat n = a := by
  rw [← UInt8.toNat_inj, UInt8.toNat_ofNat', h]

theorem base64Decode_encode (bs : List UInt8) : base64Decode (base64Encode bs) = some bs := by
  induction bs using base64Encode.induct with
  | case1 => rfl
  | case2 a =>
      have ha := a.toNat_lt
      simp only [base64Encode, base64Decode, base64Value_digit, bind, Option.bind, pure]
      rw [uint8_ofNat_eq (a := a) (by omega)]
  | case3 a b =>
      have ha := a.toNat_lt
      have hb := b.toNat_lt
      have hpad := base64Digit_ne_pad ((a.toNat * 256 + b.toNat) * 4)
      simp only [base64Encode]
      rw [base64Decode]
      · simp only [base64Value_digit, bind, Option.bind, pure]
        rw [uint8_ofNat_eq (a := a) (by omega), uint8_ofNat_eq (a := b) (by omega)]
      · exact fun hc => hpad hc
  | case4 a b c rest ih =>
      have ha := a.toNat_lt
      have hb := b.toNat_lt
      have hc := c.toNat_lt
      -- a digit is never the padding, so the last case of the decoder applies
      have hpad := base64Digit_ne_pad ((a.toNat * 256 + b.toNat) * 256 + c.toNat)
      simp only [base64Encode]
      rw [base64Decode]
      · simp only [base64Value_digit, ih, bind, Option.bind, pure]
        rw [uint8_ofNat_eq (a := a) (by omega), uint8_ofNat_eq (a := b) (by omega),
          uint8_ofNat_eq (a := c) (by omega)]
      · exact fun _ hd _ => hpad hd
      · exact fun hd _ => hpad hd

/-! ## JSON -/

/-- The rest of a text behind a literal. -/
def expect (lit : String) (cs : List Char) : Option (List Char) :=
  if lit.toList.isPrefixOf cs then some (cs.drop lit.toList.length) else none

theorem expect_append (lit : String) (cs : List Char) :
    expect lit (lit.toList ++ cs) = some cs := by
  simp [expect]

theorem expect_self (lit : String) : expect lit lit.toList = some [] := by
  simpa using expect_append lit []

/-- A character in a string of JSON. -/
def escape (c : Char) : List Char := if c = '"' ∨ c = '\\' then ['\\', c] else [c]

/-- The text of a string whose opening quote was read, and what follows it. -/
def unquote : List Char → Option (List Char × List Char)
  | [] => none
  | '"' :: cs => some ([], cs)
  | '\\' :: c :: cs => (unquote cs).map fun r => (c :: r.1, r.2)
  | c :: cs => (unquote cs).map fun r => (c :: r.1, r.2)

theorem unquote_escape (l rest : List Char) :
    unquote (l.flatMap escape ++ '"' :: rest) = some (l, rest) := by
  induction l with
  | nil => rfl
  | cons c l ih =>
      rw [List.flatMap_cons, List.append_assoc]
      by_cases hc : c = '"' ∨ c = '\\'
      · rw [escape, if_pos hc]
        show (unquote (l.flatMap escape ++ '"' :: rest)).map _ = _
        rw [ih, Option.map_some]
      · rw [escape, if_neg hc]
        rw [not_or] at hc
        show unquote (c :: (l.flatMap escape ++ '"' :: rest)) = _
        rw [unquote, ih, Option.map_some]
        · exact hc.1
        · exact fun _ _ h _ => hc.2 h

/-- A string in quotes. -/
def readString (cs : List Char) : Option (String × List Char) := do
  let cs ← expect "\"" cs
  let (l, cs) ← unquote cs
  pure (String.ofList l, cs)

theorem readString_quote (s : String) (cs : List Char) :
    readString ((quote s).toList ++ cs) = some (s, cs) := by
  have htext : (quote s).toList ++ cs =
      "\"".toList ++ (s.toList.flatMap escape ++ '"' :: cs) := by
    have hescape : (fun c => if c = '"' ∨ c = '\\' then ['\\', c] else [c]) = escape := rfl
    simp [quote, hescape]
  simp only [readString, htext, expect_append, unquote_escape, bind, Option.bind, pure,
    String.ofList_toList]

/-- A number in decimal digits. -/
def readNumber (cs : List Char) : UInt16 × List Char :=
  (UInt16.ofNat (Nat.ofDigitChars 10 (cs.takeWhile Char.isDigit) 0), cs.dropWhile Char.isDigit)

theorem digits_isDigit (j : UInt16) : ∀ d ∈ (toString j.toNat).toList, d.isDigit = true := by
  intro d hd
  rw [Nat.toString_eq_ofList_toDigits, String.toList_ofList] at hd
  exact Nat.isDigit_of_mem_toDigits (by decide) (by decide) hd

/-- A literal that ends a number. -/
def EndsNumber (lit : String) : Prop := ∃ c cs, lit.toList = c :: cs ∧ c.isDigit = false

theorem readNumber_append (j : UInt16) {lit : String} (hlit : EndsNumber lit) (cs : List Char) :
    readNumber ((toString j.toNat).toList ++ (lit.toList ++ cs)) = (j, lit.toList ++ cs) := by
  obtain ⟨c, l, hl, hc⟩ := hlit
  have hvalue : Nat.ofDigitChars 10 (toString j.toNat).toList 0 = j.toNat := by
    rw [Nat.toString_eq_ofList_toDigits, String.toList_ofList, Nat.ofDigitChars_ten_toDigits]
  unfold readNumber
  rw [List.takeWhile_append_of_pos (digits_isDigit j), List.dropWhile_append_of_pos
    (digits_isDigit j), hl, List.cons_append, List.takeWhile_cons_of_neg (by simp [hc]),
    List.dropWhile_cons_of_neg (by simp [hc]), List.append_nil, hvalue, UInt16.ofNat_toNat]

/-- `null` or a number. -/
def readReceiver (cs : List Char) : Option UInt16 × List Char :=
  match expect "null" cs with
  | some cs => (none, cs)
  | none => ((readNumber cs).1, (readNumber cs).2)

theorem readReceiver_append (receiver : Option UInt16) {lit : String} (hlit : EndsNumber lit)
    (cs : List Char) : readReceiver ((receiverText receiver).toList ++ (lit.toList ++ cs)) =
      (receiver, lit.toList ++ cs) := by
  cases receiver with
  | none => simp only [readReceiver, receiverText, expect_append]
  | some j =>
      have hexpect : expect "null" ((toString j.toNat).toList ++ (lit.toList ++ cs)) = none := by
        have hdigits := digits_isDigit j
        cases hj : (toString j.toNat).toList with
        | nil =>
            rw [Nat.toString_eq_ofList_toDigits, String.toList_ofList] at hj
            exact absurd hj Nat.toDigits_ne_nil
        | cons d ds =>
            have hd : d.isDigit = true := hdigits d (hj ▸ List.mem_cons_self)
            have hne : 'n' ≠ d := by rintro rfl; exact absurd hd (by decide)
            simp [expect, hne]
      simp only [readReceiver, receiverText, hexpect, readNumber_append j hlit]

/-- Reads what `wireText` writes. -/
def readWire (s : String) : Option WireMessage := do
  let cs ← expect "\x7b\"room\":" s.toList
  let (room, cs) ← readString cs
  let cs ← expect ",\"payload\":" cs
  let (payload, cs) ← readString cs
  let cs ← expect ",\"sender_public_key\":" cs
  let (senderPublicKey, cs) ← readString cs
  let cs ← expect ",\"signature\":" cs
  let (signature, cs) ← readString cs
  let cs ← expect "\x7d" cs
  if cs = [] then some { room, payload, senderPublicKey, signature } else none

theorem readWire_text (w : WireMessage) : readWire (wireText w) = some w := by
  simp only [readWire, wireText, String.toList_append, List.append_assoc, expect_append,
    expect_self, readString_quote, bind, Option.bind, if_true]

/-- Reads what `messageText` writes. -/
def readMessage (s : String) : Option (GenericProtocolMessage String) := do
  let cs ← expect "\x7b\"sender\":" s.toList
  let (sender, cs) := readNumber cs
  let cs ← expect ",\"receiver\":" cs
  let (receiver, cs) := readReceiver cs
  let cs ← expect ",\"body\":" cs
  if cs.getLast? = some '\x7d' then
    some { sender, receiver, body := String.ofList cs.dropLast }
  else none

theorem readMessage_text (m : GenericProtocolMessage String) :
    readMessage (messageText m) = some m := by
  have hsender : EndsNumber ",\"receiver\":" := ⟨',', _, rfl, by decide⟩
  have hreceiver : EndsNumber ",\"body\":" := ⟨',', _, rfl, by decide⟩
  have hclose : (m.body.toList ++ "\x7d".toList).getLast? = some '\x7d' := by
    show (m.body.toList ++ ['\x7d']).getLast? = _
    exact List.getLast?_concat
  have hbody : (m.body.toList ++ "\x7d".toList).dropLast = m.body.toList := by
    show (m.body.toList ++ ['\x7d']).dropLast = _
    exact List.dropLast_concat
  simp only [readMessage, messageText, String.toList_append, List.append_assoc, expect_append,
    readNumber_append _ hsender, readReceiver_append _ hreceiver, hclose, hbody, if_true,
    String.ofList_toList, bind, Option.bind]

/-- The text between the quotes. -/
def encryptedField (s : String) : String := String.ofList (s.toList.drop 14).dropLast.dropLast

/-- Reads what `encryptedText` writes. -/
def readEncrypted (s : String) : Option Encrypted :=
  if encryptedText ⟨encryptedField s⟩ = s then some ⟨encryptedField s⟩ else none

theorem readEncrypted_text (e : Encrypted) : readEncrypted (encryptedText e) = some e := by
  have htext : (encryptedText e).toList =
      "\x7b\"encrypted\":\"".toList ++ (e.encrypted.toList ++ ['"'] ++ ['\x7d']) := by
    simp [encryptedText]
  have hfield : encryptedField (encryptedText e) = e.encrypted := by
    unfold encryptedField
    rw [htext, List.drop_append_of_le_length (by decide)]
    show String.ofList ((e.encrypted.toList ++ ['"'] ++ ['\x7d']).dropLast.dropLast) = _
    rw [List.dropLast_concat, List.dropLast_concat, String.ofList_toList]
  rw [readEncrypted, hfield, if_pos rfl]

/-! ## The crates -/

/-- Envelopes as JSON. -/
def jsonWire : Serde WireMessage String where
  write w := some (wireText w)
  read := readWire

theorem jsonWire_roundTrips : jsonWire.RoundTrips := fun w => ⟨_, rfl, readWire_text w⟩

/-- Protocol messages with any body. -/
def jsonMessage : Serde (GenericProtocolMessage String) String where
  write m := some (messageText m)
  read := readMessage

theorem jsonMessage_roundTrips : jsonMessage.RoundTrips := fun m => ⟨_, rfl, readMessage_text m⟩

/-- The wrapper of a ciphertext. -/
def jsonEncrypted : Serde Encrypted String where
  write e := some (encryptedText e)
  read := readEncrypted

theorem jsonEncrypted_roundTrips : jsonEncrypted.RoundTrips := by
  intro e
  exact ⟨encryptedText e, rfl, by simp only [jsonEncrypted, readEncrypted_text]⟩

/-- Protocol messages with one of these bodies. -/
def jsonTyped {β : Type} (text : β → String) (bodies : List β) : Serde (Msg β) String where
  write m := jsonMessage.write { sender := m.sender, receiver := m.receiver, body := text m.body }
  read s := (jsonMessage.read s).bind fun g =>
    (bodies.find? (text · = g.body)).map fun body =>
      { sender := g.sender, receiver := g.receiver, body }

/-- Messages of the keygen. -/
def jsonKeygen : Serde (Msg UInt16) String := jsonTyped keygenBodyText [1, 2, 3, 4]

/-- Messages of the offline stage. -/
def jsonOffline : Serde (Msg UInt16) String := jsonTyped offlineBodyText [1, 2, 3, 4, 5, 6]

/-- Messages of the signing. -/
def jsonSign : Serde (Msg PartialSignature) String := jsonTyped partialSigText partialSigs

/-- The crates that read back whatever they write. -/
def jsonCrates : Crates where
  toSecp256k1 := secp256k1
  toSerdeJson :=
    { serdeJson {} with
      rawValueFromString := some
      wireMessage := jsonWire
      genericMessage := jsonMessage
      encrypted := jsonEncrypted
      msgKG := jsonKeygen
      msgO := jsonOffline
      msgS := jsonSign }
  overflowChecks := false

end MpcServer.Sample
