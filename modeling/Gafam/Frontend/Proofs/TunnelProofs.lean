import Gafam.Frontend.Tunnel
import Gafam.Frontend.Proofs.ResponseProofs

/-!
# Proofs: what the tunnel delivers

The tunnel delivers every data frame as a message of its own, so that it is transparent just for
messages of one frame. What arrives with the end of the head waits for the next read.
-/

namespace Gafam.Frontend

open Gafam.Go Gafam.Js Gafam.Lib

/-!
## Frames are read as they were written

The three forms of the length do not get in each other's way, and a mask that is put over a payload
twice is gone.
-/

/-! ### Bits -/

/-- The second byte holds its 7 bits and the mask bit apart. -/
theorem secondByte (n : Nat) (hn : n < 128) :
    ((0 ||| UInt8.ofNat n) &&& 0x7F).toNat = n ∧ ¬ (0 ||| UInt8.ofNat n) &&& 0x80 ≠ 0 ∧
      ((0x80 ||| UInt8.ofNat n) &&& 0x7F).toNat = n ∧ (0x80 ||| UInt8.ofNat n) &&& 0x80 ≠ 0 := by
  have hall : ∀ i : Fin 128,
      ((0 ||| UInt8.ofNat i.val) &&& 0x7F).toNat = i.val ∧ ¬ (0 ||| UInt8.ofNat i.val) &&& 0x80 ≠ 0 ∧
        ((0x80 ||| UInt8.ofNat i.val) &&& 0x7F).toNat = i.val ∧
        (0x80 ||| UInt8.ofNat i.val) &&& 0x80 ≠ 0 := by
    decide
  exact hall ⟨n, hn⟩

/-- The first byte holds the opcode and the end bit apart. -/
theorem firstByte (fin : Bool) (op : Opcode) :
    ((if fin then 0x80 else 0) ||| op.code) &&& 0x0F = op.code ∧
      decide (((if fin then 0x80 else 0) ||| op.code) &&& 0x80 ≠ 0) = fin := by
  cases fin <;> cases op <;> decide

theorem xorMask_xorMask (key payload : GoString) : xorMask key (xorMask key payload) = payload := by
  unfold xorMask
  rw [List.mapIdx_mapIdx]
  apply List.ext_getElem
  · simp
  · intro i h1 h2
    simp [UInt8.xor_assoc]

theorem length_xorMask (key payload : GoString) : (xorMask key payload).length = payload.length :=
  List.length_mapIdx

/-! ### The header -/

/-- The mask bit of a frame. -/
def maskBit (mask : Option Mask) : UInt8 := if mask.isSome then 0x80 else 0

/-- The mask on the wire. -/
def maskKey (mask : Option Mask) : GoString := (mask.map Mask.key).getD []

/-- The payload on the wire. -/
def maskedPayload (mask : Option Mask) (payload : GoString) : GoString :=
  match mask with
  | none => payload
  | some m => xorMask m.key payload

theorem frameBytes_eq (fin : Bool) (opcode : UInt8) (mask : Option Mask) (payload : GoString) :
    frameBytes fin opcode mask payload = ((if fin then 0x80 else 0) ||| opcode) ::
      (lengthBytes (maskBit mask) payload.length ++ (maskKey mask ++ maskedPayload mask payload)) := by
  cases mask with
  | none => rfl
  | some m => rfl

theorem secondByte_maskBit (mask : Option Mask) {n : Nat} (hn : n < 128) :
    ((maskBit mask ||| UInt8.ofNat n) &&& 0x7F).toNat = n ∧
      ((maskBit mask ||| UInt8.ofNat n) &&& 0x80 ≠ 0 ↔ mask.isSome) := by
  obtain ⟨h1, h2, h3, h4⟩ := secondByte n hn
  cases mask with
  | none => exact ⟨h1, iff_of_false h2 Bool.false_ne_true⟩
  | some m => exact ⟨h3, iff_of_true h4 rfl⟩

/-- Every form of the length is read as it was written. -/
theorem readLength_lengthBytes (mask : Option Mask) {n : Nat} (hn : n < 2 ^ 32) (b0 : UInt8)
    (tail : GoString) :
    ∃ b1 ext, lengthBytes (maskBit mask) n = b1 :: ext ∧ (b1 &&& 0x80 ≠ 0 ↔ mask.isSome) ∧
      readLength (b0 :: b1 :: (ext ++ tail)) (b1 &&& 0x7F).toNat = some (2 + ext.length, n) := by
  unfold lengthBytes
  split_ifs with hsmall hmiddle
  · obtain ⟨hlen, hmask⟩ := secondByte_maskBit mask (show n < 128 by omega)
    refine ⟨_, [], rfl, hmask, ?_⟩
    rw [hlen]
    unfold readLength
    rw [if_neg (by omega), if_neg (by omega)]
    rfl
  · have hbyte : ((maskBit mask ||| 126) &&& 0x7F).toNat = 126 ∧
        ((maskBit mask ||| 126) &&& 0x80 ≠ 0 ↔ mask.isSome) := secondByte_maskBit mask (by decide)
    refine ⟨_, _, rfl, hbyte.2, ?_⟩
    rw [hbyte.1]
    unfold readLength
    rw [if_pos rfl, if_neg (by simp)]
    have hread : bigEndian [UInt8.ofNat (n >>> 8), UInt8.ofNat n] = n := by
      simp only [bigEndian, List.foldl_cons, List.foldl_nil, UInt8.toNat_ofNat']
      omega
    exact congrArg (fun len => some (4, len)) hread
  · have hbyte : ((maskBit mask ||| 127) &&& 0x7F).toNat = 127 ∧
        ((maskBit mask ||| 127) &&& 0x80 ≠ 0 ↔ mask.isSome) := secondByte_maskBit mask (by decide)
    refine ⟨_, _, rfl, hbyte.2, ?_⟩
    rw [hbyte.1]
    unfold readLength
    rw [if_neg (by decide), if_pos rfl, if_neg (by simp)]
    have hread : bigEndian [UInt8.ofNat (n >>> 24), UInt8.ofNat (n >>> 16), UInt8.ofNat (n >>> 8),
        UInt8.ofNat n] = n := by
      simp only [bigEndian, List.foldl_cons, List.foldl_nil, UInt8.toNat_ofNat']
      omega
    exact congrArg (fun len => some (10, len)) hread

/-! ### Whole frames -/

theorem slice_middle (a p rest : GoString) : slice (a ++ (p ++ rest)) a.length (a.length + p.length) = p := by
  unfold slice
  rw [← List.append_assoc, ← List.length_append, List.take_left, List.drop_left]

theorem length_maskedPayload (mask : Option Mask) (payload : GoString) :
    (maskedPayload mask payload).length = payload.length := by
  cases mask with
  | none => rfl
  | some m => exact length_xorMask _ _

theorem maskLen_eq {mask : Option Mask} {b1 : UInt8} (h : b1 &&& 0x80 ≠ 0 ↔ mask.isSome) :
    maskLen b1 = (maskKey mask).length := by
  unfold maskLen
  cases mask with
  | none =>
    rw [if_neg fun hb => Bool.false_ne_true (h.1 hb)]
    rfl
  | some m =>
    rw [if_pos (h.2 rfl)]
    exact m.four.symm

/-- The mask is taken off the payload. -/
theorem readFrame_written {mask : Option Mask} {b0 b1 : UInt8} (h : b1 &&& 0x80 ≠ 0 ↔ mask.isSome)
    (ext payload rest : GoString) :
    readFrame (b0 :: b1 :: (ext ++ (maskKey mask ++ (maskedPayload mask payload ++ rest)))) b0 b1
        (2 + ext.length) payload.length =
      ⟨b0 &&& 0x0F, payload, b0 &&& 0x80 ≠ 0⟩ := by
  generalize hbuf : b0 :: b1 :: (ext ++ (maskKey mask ++ (maskedPayload mask payload ++ rest))) = buf
  have hpayload : slice buf (2 + ext.length + maskLen b1) (2 + ext.length + maskLen b1 + payload.length) =
      maskedPayload mask payload := by
    have hmiddle := slice_middle (b0 :: b1 :: ext ++ maskKey mask) (maskedPayload mask payload) rest
    rw [length_maskedPayload, List.append_assoc, List.length_append, ← maskLen_eq h] at hmiddle
    rw [← hbuf, show 2 + ext.length = (b0 :: b1 :: ext).length from Nat.add_comm ..]
    exact hmiddle
  unfold readFrame
  dsimp only
  rw [hpayload]
  cases mask with
  | none =>
    rw [if_neg fun hb => Bool.false_ne_true (h.1 hb)]
    rfl
  | some m =>
    have hkey : slice buf (2 + ext.length) (2 + ext.length + 4) = m.key := by
      have hmiddle := slice_middle (b0 :: b1 :: ext) m.key (maskedPayload (some m) payload ++ rest)
      rw [m.four] at hmiddle
      rw [← hbuf, show 2 + ext.length = (b0 :: b1 :: ext).length from Nat.add_comm ..]
      exact hmiddle
    rw [if_pos (h.2 rfl), hkey]
    exact congrArg (fun p => ParsedFrame.mk _ p _) (xorMask_xorMask m.key payload)

/-- A frame at the front of the buffer is read as it was written. -/
theorem takeWsFrame_bytes (f : WsFrame) (rest : GoString) :
    takeWsFrame (f.bytes ++ rest) = some (⟨f.opcode.code, f.payload, f.fin⟩, rest) := by
  obtain ⟨hop, hfin⟩ := firstByte f.fin f.opcode
  generalize hb0 : ((if f.fin then 0x80 else 0) ||| f.opcode.code : UInt8) = b0 at hop hfin
  obtain ⟨b1, ext, hbytes, hmask, hread⟩ := readLength_lengthBytes f.mask f.short b0
    (maskKey f.mask ++ (maskedPayload f.mask f.payload ++ rest))
  have hbuf : f.bytes ++ rest =
      b0 :: b1 :: (ext ++ (maskKey f.mask ++ (maskedPayload f.mask f.payload ++ rest))) := by
    unfold WsFrame.bytes
    rw [frameBytes_eq, hbytes, hb0]
    simp
  have hlen : (b0 :: b1 :: (ext ++ (maskKey f.mask ++ maskedPayload f.mask f.payload))).length =
      2 + ext.length + maskLen b1 + f.payload.length := by
    simp only [List.length_cons, List.length_append, length_maskedPayload, maskLen_eq hmask]
    omega
  have hsplit : b0 :: b1 :: (ext ++ (maskKey f.mask ++ (maskedPayload f.mask f.payload ++ rest))) =
      b0 :: b1 :: (ext ++ (maskKey f.mask ++ maskedPayload f.mask f.payload)) ++ rest := by
    simp
  have hframe := @readFrame_written f.mask b0 b1 hmask ext f.payload rest
  rw [hop, hfin] at hframe
  refine takeWsFrame_eq_some.2 ⟨b0, b1, _, _, _, hbuf, hbuf ▸ hread, ?_, ?_, ?_⟩
  · rw [hbuf, hsplit, List.length_append, hlen]
    exact Nat.le_add_right _ _
  · rw [hbuf, hframe]
  · rw [hbuf, hsplit, ← hlen, List.drop_left]

/-- What the tunnel writes to the server is a frame with a mask. -/
theorem encodeClientWsFrame_eq (mask : Mask) (opcode : UInt8) (payload : GoString) :
    encodeClientWsFrame mask opcode payload = frameBytes true opcode (some mask) payload := by
  unfold encodeClientWsFrame frameBytes lengthBytes
  dsimp only
  rw [if_pos rfl]
  split_ifs <;> simp

/-! ## The head -/

theorem isPrefixOf_ascii (sub s : GoString) : (ascii sub).isPrefixOf (ascii s) = sub.isPrefixOf s := by
  induction sub generalizing s with
  | nil => rfl
  | cons a sub ih =>
    cases s with
    | nil => rfl
    | cons b s =>
      have hhead : (a.toUInt16 == b.toUInt16) = (a == b) := by
        rw [Bool.eq_iff_iff, beq_iff_eq, beq_iff_eq, toUInt16_inj]
      show (a.toUInt16 == b.toUInt16 && (ascii sub).isPrefixOf (ascii s)) = _
      rw [hhead, ih]
      rfl

/-- The first empty line, looked for among bytes or among characters. -/
theorem indexOf_ascii (s : GoString) :
    findBodyStart s = (indexOf (newline ++ newline) (ascii s)).map (· + 4) := by
  induction s with
  | nil => rfl
  | cons b rest ih =>
    have hpre : (newline ++ newline).isPrefixOf (ascii (b :: rest)) = (crlf ++ crlf).isPrefixOf (b :: rest) :=
      isPrefixOf_ascii (crlf ++ crlf) (b :: rest)
    show findBodyStart (b :: rest) = (indexOf (newline ++ newline) (b.toUInt16 :: ascii rest)).map (· + 4)
    unfold findBodyStart indexOf
    rw [show b.toUInt16 :: ascii rest = ascii (b :: rest) from rfl, hpre, ih]
    split_ifs
    · rfl
    · rw [Option.map_map, Option.map_map]
      congr 1

/-- The end of the head lies within the buffer, behind four bytes at least. -/
theorem findBodyStart_le {b : GoString} {n : Nat} (h : findBodyStart b = some n) :
    4 ≤ n ∧ n ≤ b.length := by
  induction b generalizing n with
  | nil => cases h
  | cons c b ih =>
    unfold findBodyStart at h
    split_ifs at h with hpre
    · have hle := (List.isPrefixOf_iff_prefix.1 hpre).length_le
      obtain rfl := Option.some.inj h
      exact ⟨Nat.le_refl 4, hle⟩
    · obtain ⟨m, hm, rfl⟩ := Option.map_eq_some_iff.1 h
      obtain ⟨hfour, hle⟩ := ih hm
      exact ⟨Nat.le_succ_of_le hfour, Nat.succ_le_succ hle⟩

theorem findBodyStart_append {b : GoString} {n : Nat} (h : findBodyStart b = some n) (more : GoString) :
    findBodyStart (b ++ more) = some n := by
  induction b generalizing n with
  | nil => cases h
  | cons c b ih =>
    unfold findBodyStart at h
    rw [List.cons_append]
    unfold findBodyStart
    split_ifs at h with hpre
    · have hlong : (crlf ++ crlf).isPrefixOf (c :: (b ++ more)) = true := by
        rw [List.isPrefixOf_iff_prefix] at hpre ⊢
        exact hpre.trans (List.prefix_append (c :: b) more)
      rw [if_pos hlong]
      exact h
    · obtain ⟨m, hm, rfl⟩ := Option.map_eq_some_iff.1 h
      -- there are four bytes already, so that those to come do not complete a mark at the front
      have hshort : ¬ (crlf ++ crlf).isPrefixOf (c :: (b ++ more)) = true := by
        rw [List.isPrefixOf_iff_prefix] at hpre ⊢
        obtain ⟨hfour, hle⟩ := findBodyStart_le hm
        intro hlong
        exact hpre (List.prefix_of_prefix_length_le hlong (List.prefix_append (c :: b) more)
          (Nat.le_succ_of_le (Nat.le_trans hfour hle)))
      rw [if_neg hshort, ih hm]
      rfl

theorem SwitchReply.lines_line (r : SwitchReply) : ∀ l ∈ r.lines, IsLine l ∧ l ≠ [] := by
  intro l hl
  rcases List.mem_cons.1 hl with rfl | hl
  · constructor
    · intro b hb
      rcases List.mem_append.1 hb with hb | hb
      · have hall : ∀ b ∈ "HTTP/1.1 " ++ itoa 101 ++ str " ", b ≠ 0x0D ∧ b ≠ 0x0A := forall_of_all (by decide)
        exact hall b hb
      · exact r.reason_line b hb
    · nofun
  · exact r.header_line l hl

/-- The head ends where it ends. -/
theorem findBodyStart_head (r : SwitchReply) (rest : GoString) :
    findBodyStart (r.bytes ++ rest) = some r.bytes.length := by
  have hlines : ∀ l ∈ r.lines.map ascii, 0x0D ∉ l ∧ l ≠ [] := by
    intro l hl
    obtain ⟨k, hk, rfl⟩ := List.mem_map.1 hl
    obtain ⟨hline, hne⟩ := r.lines_line k hk
    refine ⟨fun hmem => ?_, fun h => hne (List.map_eq_nil_iff.1 h)⟩
    obtain ⟨b, hb, hbr⟩ := List.mem_map.1 hmem
    exact (hline b hb).1 (toUInt16_inj.1 (hbr.trans rfl))
  obtain ⟨i, hi, hlen⟩ := indexOf_blank hlines (List.cons_ne_nil _ _) (ascii rest)
  have hnewline : ∀ lines : List GoString, ascii (lines.flatMap (fun l => l ++ crlf)) =
      (lines.map ascii).flatMap (fun l => l ++ newline) := by
    intro lines
    induction lines with
    | nil => rfl
    | cons l lines ih =>
      rw [List.flatMap_cons, List.map_cons, List.flatMap_cons, ← ih]
      simp [ascii, newline]
  have hhead : ascii r.bytes = (r.lines.map ascii).flatMap (fun l => l ++ newline) ++ newline := by
    rw [← hnewline]
    exact List.map_append
  have htext : ascii (r.bytes ++ rest) =
      (r.lines.map ascii).flatMap (fun l => l ++ newline) ++ (newline ++ ascii rest) := by
    rw [← List.append_assoc, ← hhead]
    exact List.map_append
  rw [indexOf_ascii, htext, hi, Option.map_some, hlen, ← hhead]
  exact congrArg some (List.length_map _)

theorem SwitchReply.length_pos (r : SwitchReply) : 0 < r.bytes.length :=
  Nat.lt_of_lt_of_le (by decide) (findBodyStart_le (findBodyStart_head r [])).1

/-- A piece of the head is not taken for one. -/
theorem findBodyStart_cut {r : SwitchReply} {b rest : GoString} (hb : b <+: r.bytes ++ rest)
    (hlt : b.length < r.bytes.length) : findBodyStart b = none := by
  by_contra hne
  obtain ⟨n, hn⟩ := Option.ne_none_iff_exists'.1 hne
  obtain ⟨more, hmore⟩ := hb
  have hlong := findBodyStart_append hn more
  rw [hmore, findBodyStart_head] at hlong
  have hle := (findBodyStart_le hn).2
  have hlen := Option.some.inj hlong
  omega

/-- A byte order mark in front is lost. -/
theorem textDecode_eq_iff (bytes : GoString) :
    textDecode bytes = utf8Decode bytes ↔ (codePoints bytes).head? ≠ some 0xFEFF := by
  show (skipBom false (codePoints bytes)).flatMap utf16 = (codePoints bytes).flatMap utf16 ↔ _
  rcases codePoints bytes with _ | ⟨c, rest⟩
  · exact iff_of_true rfl nofun
  · by_cases hc : c = 0xFEFF
    · subst hc
      refine iff_of_false (fun h => ?_) (fun h => h rfl)
      have hlen := congrArg List.length h
      rw [List.flatMap_cons, List.length_append] at hlen
      have hone : (utf16 0xFEFF).length = 1 := rfl
      have hskip : skipBom false (0xFEFF :: rest) = rest := rfl
      rw [hskip] at hlen
      omega
    · refine iff_of_true ?_ fun h => hc (Option.some.inj h)
      unfold skipBom
      split
      · next heq => exact absurd (List.cons.inj heq).1 hc
      · rfl

theorem codePoints_cons_ascii {b : UInt8} (hb : b.toNat < 0x80) (rest : GoString) :
    codePoints (b :: rest) = b.toNat :: codePoints rest := by
  unfold codePoints
  rw [utf8Run_cons_ascii _ hb]
  rfl

/-- A line is decoded apart from what follows it. -/
theorem utf8Decode_crlf (l rest : GoString) :
    utf8Decode (l ++ (crlf ++ rest)) = utf8Decode l ++ (newline ++ utf8Decode rest) := by
  have hstate : (utf8Run .start (l ++ (crlf ++ rest))).1 = (utf8Run .start rest).1 := by
    rw [utf8Run_append]
    show (utf8Run _ (0x0D :: 0x0A :: rest)).1 = _
    rw [utf8Run_cons_ascii _ (by decide), utf8Run_cons_ascii _ (by decide)]
  rw [utf8Decode_eq (l ++ (crlf ++ rest)), readUnits_crlf, hstate, utf8Decode_eq rest]
  simp

theorem indexOf_none {sub : JsString} {d : UInt16} {sub' : JsString} (hsub : sub = d :: sub')
    {l : JsString} (hl : d ∉ l) : indexOf sub l = none := by
  induction l with
  | nil =>
    unfold indexOf
    rw [if_neg (hsub ▸ List.cons_ne_nil d sub')]
  | cons c l ih =>
    have hne : c ≠ d := fun h => hl (h ▸ List.mem_cons_self ..)
    rw [indexOf_cons_ne hsub hne, ih fun h => hl (List.mem_cons_of_mem _ h)]
    rfl

/-- The head without the empty line is its first line, or that and more lines. -/
theorem SwitchReply.bytes_eq (r : SwitchReply) :
    ∃ tail, r.bytes = r.statusLine ++ tail ++ (crlf ++ crlf) ∧
      (tail = [] ∨ ∃ body, tail = crlf ++ body) := by
  rcases List.eq_nil_or_concat r.headers with hnil | ⟨init, last, hlast⟩
  · refine ⟨[], ?_, .inl rfl⟩
    unfold SwitchReply.bytes SwitchReply.lines
    rw [hnil]
    simp
  · refine ⟨crlf ++ (init.flatMap (fun l => l ++ crlf) ++ last), ?_, .inr ⟨_, rfl⟩⟩
    unfold SwitchReply.bytes SwitchReply.lines
    rw [hlast]
    simp

/-- The status of the head is the one in its first line. -/
theorem statusCode_head (r : SwitchReply) (rest : GoString) :
    statusCode (textDecode ((r.bytes ++ rest).take (r.bytes.length - 4))) = some 101 := by
  obtain ⟨tail, hbytes, htail⟩ := r.bytes_eq
  have htake : (r.bytes ++ rest).take (r.bytes.length - 4) = r.statusLine ++ tail := by
    have hfour : r.bytes.length = (r.statusLine ++ tail).length + 4 := by
      rw [hbytes, List.length_append]
      rfl
    rw [hfour, Nat.add_sub_cancel, hbytes, List.append_assoc, List.take_left]
  have hdecode : textDecode (r.statusLine ++ tail) = utf8Decode (r.statusLine ++ tail) := by
    obtain ⟨t, ht⟩ : ∃ t, r.statusLine = 0x48 :: t := ⟨_, rfl⟩
    rw [textDecode_eq_iff, ht, List.cons_append, codePoints_cons_ascii (by decide)]
    intro h
    exact absurd (Option.some.inj h) (by decide)
  have hline : splitFirst newline (utf8Decode (r.statusLine ++ tail)) = utf8Decode r.statusLine := by
    have hsub : newline = 0x0D :: [0x0A] := rfl
    have hno := line_decode (r.lines_line _ (List.mem_cons_self ..)).1
    rcases htail with rfl | ⟨body, rfl⟩
    · rw [List.append_nil]
      unfold splitFirst
      rw [indexOf_none hsub hno]
    · rw [utf8Decode_crlf]
      exact splitFirst_append hsub hno _
  have hstatus : splitSecond (ascii " ") (utf8Decode r.statusLine) = some (ascii (itoa 101)) :=
    status_read 101 r.reason
  unfold statusCode
  rw [htake, hdecode, hline, hstatus]
  decide

/-! ## The pump -/

/-- The frame that the tunnel sees. -/
def WsFrame.parsed (f : WsFrame) : ParsedFrame := ⟨f.opcode.code, f.payload, f.fin⟩

/-- What a frame makes the pump do. -/
def ParsedFrame.event (f : ParsedFrame) : Option PumpEvent :=
  if f.opcode = 0x9 then some (.pong f.payload)
  else if f.opcode = 0xA then none
  else if f.opcode = 0x1 then some (.send (.text (textDecode f.payload)))
  else some (.send (.binary f.payload))

/-- A frame that does not close the tunnel. -/
theorem Pump.handle_cons {f : ParsedFrame} (h : f.opcode ≠ 0x8) (frames : List ParsedFrame) (p : Pump) :
    p.handle (f :: frames) = Pump.handle { p with events := p.events ++ f.event.toList } frames := by
  unfold ParsedFrame.event
  rw [Pump.handle, if_neg h]
  split_ifs
  · rfl
  · rw [Option.toList_none, List.append_nil]
  · rfl
  · rfl

/-- Frames that do not close the tunnel. -/
theorem Pump.handle_eq {frames : List ParsedFrame} (h : ∀ f ∈ frames, f.opcode ≠ 0x8) (p : Pump) :
    p.handle frames = { p with events := p.events ++ frames.filterMap ParsedFrame.event } := by
  induction frames generalizing p with
  | nil => simp [Pump.handle]
  | cons f frames ih =>
    rw [Pump.handle_cons (h f (List.mem_cons_self ..)), ih fun g hg => h g (List.mem_cons_of_mem _ hg)]
    cases hevent : f.event <;> simp [hevent]

theorem Opcode.code_ne_close (op : Opcode) : op.code ≠ 0x8 := by cases op <;> decide

/-- The frames of the stream do not close the tunnel, wherever it is cut. -/
theorem ServerStream.drain_take (s : ServerStream) (n : Nat) :
    (wsFrames.drain (s.bytes.take n)).1 = (s.arrived n).map WsFrame.parsed :=
  Decoder.drain_take (fun f _ => takeWsFrame_bytes f) rfl n

theorem ServerStream.not_close (s : ServerStream) (n : Nat) :
    ∀ f ∈ (wsFrames.drain (s.bytes.take n)).1, f.opcode ≠ 0x8 := by
  rw [s.drain_take]
  intro f hf
  obtain ⟨g, -, rfl⟩ := List.mem_map.1 hf
  exact g.opcode.code_ne_close

/-- The pump when it has parsed the first `n` bytes of the stream. -/
def ServerStream.pumped (s : ServerStream) (n : Nat) : Pump :=
  ⟨(wsFrames.drain (s.bytes.take n)).2, (wsFrames.drain (s.bytes.take n)).1.filterMap ParsedFrame.event,
    false⟩

/-! ## The reads -/

section Reads

variable {r : SwitchReply} {s : ServerStream}

/-- Where the tunnel stands after some reads: before the end of the head it has kept everything; the
read that completes the head is not looked at any further; and every later read is. -/
inductive Stands (r : SwitchReply) (s : ServerStream) (seen : List GoString) : Prop
  | before (hlt : seen.flatten.length < r.bytes.length)
      (h : tunnelAfter seen = .upgrading seen.flatten)
  | completed (protocol : JsString) (prev : List GoString) (value : GoString) (hseen : seen = prev ++ [value])
      (hlt : prev.flatten.length < r.bytes.length) (hle : r.bytes.length ≤ seen.flatten.length)
      (h : tunnelAfter seen =
        .piping protocol ⟨s.bytes.take (seen.flatten.length - r.bytes.length), [], false⟩)
  | later (protocol : JsString) (prev : List GoString) (value : GoString) (hseen : seen = prev ++ [value])
      (hle : r.bytes.length ≤ prev.flatten.length)
      (h : tunnelAfter seen = .piping protocol (s.pumped (seen.flatten.length - r.bytes.length)))

theorem tunnelAfter_snoc (seen : List GoString) (value : GoString) :
    tunnelAfter (seen ++ [value]) = (tunnelAfter seen).read (some value) := by
  unfold tunnelAfter
  rw [List.foldl_append, List.foldl_cons, List.foldl_nil]

theorem length_snoc (seen : List GoString) (value : GoString) :
    (seen ++ [value]).flatten.length = seen.flatten.length + value.length := by
  rw [List.flatten_append, List.flatten_singleton, List.length_append]

/-- What has been read behind the head. -/
theorem drop_head {b : GoString} (hb : b <+: r.bytes ++ s.bytes) (hle : r.bytes.length ≤ b.length) :
    b = r.bytes ++ s.bytes.take (b.length - r.bytes.length) := by
  have htake := List.prefix_iff_eq_take.1 hb
  rw [List.take_append, List.take_of_length_le hle] at htake
  exact htake

/-- The read behind a part of the stream. -/
theorem take_snoc {seen : List GoString} {value : GoString}
    (hb : (seen ++ [value]).flatten <+: r.bytes ++ s.bytes)
    (hle : r.bytes.length ≤ seen.flatten.length) :
    s.bytes.take (seen.flatten.length - r.bytes.length) ++ value =
      s.bytes.take ((seen ++ [value]).flatten.length - r.bytes.length) := by
  have hflat : (seen ++ [value]).flatten = seen.flatten ++ value := by
    rw [List.flatten_append, List.flatten_singleton]
  have hlong := drop_head hb (by rw [length_snoc]; omega)
  have hshort := drop_head ((List.prefix_append seen.flatten value).trans (hflat ▸ hb)) hle
  rw [hflat] at hlong ⊢
  apply (List.append_right_inj r.bytes).1
  rw [← hlong, ← List.append_assoc, ← hshort]

/-- The read that follows the one with the end of the head. -/
theorem completed_read {n m : Nat} {value : GoString} (h : s.bytes.take n ++ value = s.bytes.take m) :
    Pump.read ⟨s.bytes.take n, [], false⟩ (some value) = s.pumped m := by
  unfold Pump.read ServerStream.pumped parseServerWsFrames
  rw [if_neg Bool.false_ne_true]
  dsimp only
  rw [h, Pump.handle_eq (s.not_close m), List.nil_append]

/-- Every read after that. -/
theorem pumped_read {n m : Nat} {value : GoString} (h : s.bytes.take n ++ value = s.bytes.take m) :
    (s.pumped n).read (some value) = s.pumped m := by
  have hdrain := wsFrames.drain_append (s.bytes.take n) value
  rw [h] at hdrain
  have hopen : ∀ f ∈ (wsFrames.drain ((wsFrames.drain (s.bytes.take n)).2 ++ value)).1, f.opcode ≠ 0x8 := by
    intro f hf
    apply s.not_close m f
    rw [hdrain]
    exact List.mem_append_right _ hf
  unfold Pump.read ServerStream.pumped parseServerWsFrames
  rw [if_neg Bool.false_ne_true]
  dsimp only
  rw [Pump.handle_eq hopen, hdrain]
  dsimp only
  rw [List.filterMap_append]

/-- Every read leaves the tunnel where it should stand. -/
theorem stands {seen : List GoString} (h : seen.flatten <+: r.bytes ++ s.bytes) : Stands r s seen := by
  induction seen using List.reverseRecOn with
  | nil => exact .before r.length_pos rfl
  | append_singleton seen value ih =>
    have hflat : (seen ++ [value]).flatten = seen.flatten ++ value := by
      rw [List.flatten_append, List.flatten_singleton]
    cases ih ((List.prefix_append seen.flatten value).trans (hflat ▸ h)) with
    | before hlt hstate =>
      rcases Nat.lt_or_ge (seen ++ [value]).flatten.length r.bytes.length with hshort | hge
      · apply Stands.before hshort
        rw [tunnelAfter_snoc, hstate]
        unfold Tunnel.read
        dsimp only
        rw [← hflat, findBodyStart_cut h hshort]
      · generalize hn : (seen ++ [value]).flatten.length - r.bytes.length = n
        have hhead := drop_head h hge
        rw [hn] at hhead
        refine .completed (acceptedProtocol (textDecode ((r.bytes ++ s.bytes.take n).take
          (r.bytes.length - 4)))) seen value rfl hlt hge ?_
        rw [tunnelAfter_snoc, hstate]
        unfold Tunnel.read
        dsimp only
        rw [← hflat, hn, hhead, findBodyStart_head]
        dsimp only
        rw [statusCode_head, if_neg (fun h => h rfl), List.drop_left]
    | completed protocol prev last hseen hlt hle hstate =>
      apply Stands.later protocol seen value rfl hle
      rw [tunnelAfter_snoc, hstate]
      exact congrArg (Tunnel.piping protocol) (completed_read (take_snoc h hle))
    | later protocol prev last hseen hle hstate =>
      have hge : r.bytes.length ≤ seen.flatten.length := by
        rw [hseen, length_snoc]
        exact Nat.le_add_right_of_le hle
      apply Stands.later protocol seen value rfl hge
      rw [tunnelAfter_snoc, hstate]
      exact congrArg (Tunnel.piping protocol) (pumped_read (take_snoc h hge))

end Reads

/-! ## Frames and messages -/

/-- The message that the tunnel makes of a frame. -/
def WsFrame.sent (f : WsFrame) : Option ClientMessage := f.parsed.event.bind PumpEvent.message

/-- A frame that the tunnel hands on as what it is: it is a message of its own, and a text does not
begin with U+FEFF. -/
def WsFrame.Plain (f : WsFrame) : Prop :=
  f.opcode.Control ∨ (f.fin = true ∧ f.opcode ≠ .continuation ∧
    (f.opcode = .text → (codePoints f.payload).head? ≠ some 0xFEFF))

/-- A data frame as a message. -/
def WsFrame.handedOn (f : WsFrame) : ClientMessage :=
  if f.opcode = .text then .text (textDecode f.payload) else .binary f.payload

theorem handedOn_eq_iff (f : WsFrame) :
    f.handedOn = messageOf f.opcode f.payload ↔
      (f.opcode = .text → (codePoints f.payload).head? ≠ some 0xFEFF) := by
  unfold WsFrame.handedOn messageOf
  by_cases htext : f.opcode = .text
  · rw [if_pos htext, if_pos htext, ClientMessage.text.injEq, textDecode_eq_iff]
    exact ⟨fun h _ => h, fun h => h htext⟩
  · rw [if_neg htext, if_neg htext]
    exact iff_of_true rfl fun h => absurd h htext

theorem sent_control {f : WsFrame} (h : f.opcode.Control) : f.sent = none := by
  unfold WsFrame.sent ParsedFrame.event WsFrame.parsed
  rcases h with h | h <;> rw [h] <;> rfl

theorem sent_data {f : WsFrame} (h : ¬ f.opcode.Control) :
    f.sent = some f.handedOn := by
  unfold Opcode.Control at h
  unfold WsFrame.sent ParsedFrame.event WsFrame.parsed WsFrame.handedOn
  cases hop : f.opcode with
  | ping => exact absurd (Or.inl hop) h
  | pong => exact absurd (Or.inr hop) h
  | _ => rfl

theorem delivered_piping (protocol : JsString) (n : Nat) (s : ServerStream) :
    (Tunnel.piping protocol (s.pumped n)).delivered = (s.arrived n).filterMap WsFrame.sent := by
  show ((wsFrames.drain (s.bytes.take n)).1.filterMap ParsedFrame.event).filterMap PumpEvent.message = _
  rw [s.drain_take, List.filterMap_filterMap, List.filterMap_map]
  rfl

/-- A message needs one frame at least. -/
theorem length_assemble_le (begun : Option (Opcode × GoString)) (frames : List WsFrame) :
    (assemble begun frames).length ≤ (frames.filterMap WsFrame.sent).length := by
  induction frames generalizing begun with
  | nil => exact Nat.le_refl 0
  | cons f frames ih =>
    unfold assemble
    by_cases hc : f.opcode.Control
    · rw [if_pos hc, List.filterMap_cons_none (sent_control hc)]
      exact ih begun
    · rw [if_neg hc, List.filterMap_cons_some (sent_data hc)]
      dsimp only
      by_cases hfin : f.fin = true
      · rw [if_pos hfin]
        exact Nat.succ_le_succ (ih none)
      · rw [if_neg hfin]
        exact Nat.le_succ_of_le (ih _)

/-- The tunnel delivers the messages that the frames complete just when every frame is handed on as
what it is. -/
theorem sent_eq_assemble_iff {frames : List WsFrame} (h : Legal false frames) :
    frames.filterMap WsFrame.sent = assemble none frames ↔ ∀ f ∈ frames, f.Plain := by
  induction frames with
  | nil => exact iff_of_true rfl nofun
  | cons f frames ih =>
    unfold Legal at h
    rw [List.forall_mem_cons]
    by_cases hc : f.opcode.Control
    · rw [if_pos hc] at h
      unfold assemble
      rw [if_pos hc, List.filterMap_cons_none (sent_control hc), ih h.2]
      exact (and_iff_right (Or.inl hc)).symm
    · rw [if_neg hc] at h
      obtain ⟨hfirst, hrest⟩ := h
      unfold assemble
      rw [if_neg hc, List.filterMap_cons_some (sent_data hc)]
      cases hfin : f.fin with
      | true =>
        rw [hfin] at hrest
        rw [if_pos rfl, List.cons.injEq, ih hrest]
        have hbegins : f.opcode ≠ .continuation := fun hop => Bool.false_ne_true (hfirst.1 hop)
        apply and_congr_left'
        show f.handedOn = messageOf f.opcode f.payload ↔ f.Plain
        rw [handedOn_eq_iff]
        exact ⟨fun htext => Or.inr ⟨hfin, hbegins, htext⟩,
          fun hplain => hplain.elim (fun hcontrol => absurd hcontrol hc) fun hdata => hdata.2.2⟩
      | false =>
        -- a fragment is delivered, and completes nothing
        rw [if_neg Bool.false_ne_true]
        refine iff_of_false (fun heq => ?_) (fun hplain => ?_)
        · have hle := length_assemble_le (some (f.opcode, f.payload)) frames
          have hlen := congrArg List.length heq
          rw [List.length_cons] at hlen
          exact absurd (hlen ▸ hle) (Nat.not_succ_le_self _)
        · rcases hplain.1 with hcontrol | ⟨hend, -⟩
          · exact hc hcontrol
          · exact Bool.false_ne_true (hfin ▸ hend)

/-! ## The whole tunnel -/

theorem legal_prefix {inside : Bool} {a frames : List WsFrame} (ha : a <+: frames)
    (h : Legal inside frames) : Legal inside a := by
  induction a generalizing inside frames with
  | nil => trivial
  | cons f a ih =>
    obtain ⟨rest, rfl⟩ := ha
    rw [List.cons_append] at h
    unfold Legal at h ⊢
    split_ifs at h ⊢
    · exact ⟨h.1, ih (List.prefix_append ..) h.2⟩
    · exact ⟨h.1, ih (List.prefix_append ..) h.2⟩

theorem ServerStream.arrived_legal (s : ServerStream) (n : Nat) : Legal false (s.arrived n) :=
  legal_prefix (Decoder.whole_prefix n s.frames) s.legal

theorem ServerStream.arrived_zero (s : ServerStream) : s.arrived 0 = [] := by
  unfold ServerStream.arrived
  cases s.frames with
  | nil => rfl
  | cons f frames => exact if_neg (Nat.not_succ_le_zero _)

theorem ServerStream.complete_before {n m : Nat} (h : n < m) (s : ServerStream) : s.complete (n - m) = [] := by
  unfold ServerStream.complete
  rw [Nat.sub_eq_zero_of_le (Nat.le_of_lt h), s.arrived_zero]
  rfl

theorem stands_of_prefix {r : SwitchReply} {s : ServerStream} {seen values : List GoString}
    (h : values.flatten <+: r.bytes ++ s.bytes) (hseen : seen <+: values) : Stands r s seen := by
  obtain ⟨rest, rfl⟩ := hseen
  rw [List.flatten_append] at h
  exact stands ((List.prefix_append ..).trans h)

/-- After every read the client has received the messages that are complete just when the read that
ends the head completes no message, and every frame that has arrived with a later read is handed on as
what it is. -/
theorem transparent_iff {r : SwitchReply} {s : ServerStream} {values : List GoString}
    (h : values.flatten <+: r.bytes ++ s.bytes) :
    (∀ seen, seen <+: values →
      (tunnelAfter seen).delivered = s.complete (seen.flatten.length - r.bytes.length)) ↔
    ∀ seen value, seen ++ [value] <+: values →
      if seen.flatten.length < r.bytes.length then
        s.complete ((seen ++ [value]).flatten.length - r.bytes.length) = []
      else ∀ f ∈ s.arrived ((seen ++ [value]).flatten.length - r.bytes.length), f.Plain := by
  have hplain : ∀ n, (s.arrived n).filterMap WsFrame.sent = s.complete n ↔ ∀ f ∈ s.arrived n, f.Plain :=
    fun n => sent_eq_assemble_iff (s.arrived_legal n)
  constructor
  · intro hall seen value hpre
    have hdelivered := hall _ hpre
    cases stands_of_prefix h hpre with
    | before hlt hstate =>
      have hshort : seen.flatten.length < r.bytes.length := by
        rw [length_snoc] at hlt
        omega
      rw [if_pos hshort]
      exact s.complete_before hlt
    | completed protocol prev last hseen hlt hle hstate =>
      obtain ⟨rfl, -⟩ := List.append_inj' hseen rfl
      rw [if_pos hlt, ← hdelivered, hstate]
      rfl
    | later protocol prev last hseen hle hstate =>
      obtain ⟨rfl, -⟩ := List.append_inj' hseen rfl
      rw [if_neg (Nat.not_lt.2 hle), ← hplain, ← hdelivered, hstate, delivered_piping]
  · intro hcond seen hpre
    cases stands_of_prefix h hpre with
    | before hlt hstate =>
      rw [hstate, s.complete_before hlt]
      rfl
    | completed protocol prev last hseen hlt hle hstate =>
      subst hseen
      have hnone := hcond prev last hpre
      rw [if_pos hlt] at hnone
      rw [hstate, hnone]
      rfl
    | later protocol prev last hseen hle hstate =>
      subst hseen
      have hframes := hcond prev last hpre
      rw [if_neg (Nat.not_lt.2 hle)] at hframes
      rw [hstate, delivered_piping, hplain]
      exact hframes

/-- A relay that switches protocols without further headers. -/
def bareReply : SwitchReply :=
  ⟨"Switching Protocols", [], forall_of_all (by decide), fun _ hl => absurd hl List.not_mem_nil⟩

/-- The text `AB` in two fragments. -/
def twoFragments : ServerStream where
  frames := [⟨false, .text, none, [0x41], by decide⟩, ⟨true, .continuation, none, [0x42], by decide⟩]
  legal := by simp [Legal, Opcode.Control]

theorem twoReads_prefix :
    [bareReply.bytes, twoFragments.bytes].flatten <+: bareReply.bytes ++ twoFragments.bytes := by
  have hflat : [bareReply.bytes, twoFragments.bytes].flatten = bareReply.bytes ++ twoFragments.bytes := by
    rw [List.flatten_cons, List.flatten_singleton]
  exact hflat ▸ List.prefix_rfl

theorem transparent_twoFragments :
    (∀ seen, seen <+: [bareReply.bytes, twoFragments.bytes] →
      (tunnelAfter seen).delivered =
        twoFragments.complete (seen.flatten.length - bareReply.bytes.length)) ↔
    ∀ seen value, seen ++ [value] <+: [bareReply.bytes, twoFragments.bytes] →
      if seen.flatten.length < bareReply.bytes.length then
        twoFragments.complete ((seen ++ [value]).flatten.length - bareReply.bytes.length) = []
      else ∀ f ∈ twoFragments.arrived ((seen ++ [value]).flatten.length - bareReply.bytes.length), f.Plain :=
  transparent_iff twoReads_prefix

/-- The two fragments of a text are delivered as a text and a binary message. -/
theorem fragments_apart : ¬ ∀ (r : SwitchReply) (s : ServerStream) (values : List GoString),
    values.flatten <+: r.bytes ++ s.bytes →
    (tunnelAfter values).delivered = s.complete (values.flatten.length - r.bytes.length) := by
  intro h
  have heq := h _ _ _ twoReads_prefix
  have hlen : [bareReply.bytes, twoFragments.bytes].flatten.length - bareReply.bytes.length = 6 := by
    decide
  rw [hlen] at heq
  cases stands twoReads_prefix with
  | before hlt hstate => exact absurd hlt (by decide)
  | completed protocol prev last hseen hlt hle hstate =>
    have happ : [bareReply.bytes] ++ [twoFragments.bytes] = prev ++ [last] := hseen
    obtain ⟨rfl, -⟩ := List.append_inj' happ rfl
    exact absurd hlt (by decide)
  | later protocol prev last hseen hle hstate =>
    rw [hstate, hlen, delivered_piping] at heq
    have htwo : ((twoFragments.arrived 6).filterMap WsFrame.sent).length = 2 := by decide
    have hone : (twoFragments.complete 6).length = 1 := by decide
    rw [heq, hone] at htwo
    cases htwo

end Gafam.Frontend
