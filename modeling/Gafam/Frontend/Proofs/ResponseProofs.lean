import Gafam.Frontend.VpcProxy
import Gafam.Js.Proofs.JsonProofs

/-!
# What `vpcRequest` makes of a reply

The first empty line of the text is the end of the head, and the status is the second word. The body is
the rest: what the handler wrote when the reply is framed by its length, and otherwise its chunks with
their sizes, which are no JSON.
-/

namespace Gafam.Frontend

open Gafam.Go Gafam.Js
open Gafam.Relay (textEncode)

/-! ## The head -/

theorem readUnits_crlf (l rest : GoString) :
    readUnits .start (l ++ (crlf ++ rest)) = utf8Decode l ++ (newline ++ readUnits .start rest) := by
  show readUnits .start (l ++ 0x0D :: 0x0A :: rest) = _
  rw [readUnits_append_ascii l (by decide), readUnits_cons_ascii (by decide)]
  rfl

/-- The lines of a head are read one by one. -/
theorem readUnits_lines (lines : List GoString) (rest : GoString) :
    readUnits .start (lines.flatMap (fun l => l ++ crlf) ++ rest) =
      (lines.map utf8Decode).flatMap (fun l => l ++ newline) ++ readUnits .start rest := by
  induction lines with
  | nil => rfl
  | cons l lines ih =>
    rw [List.flatMap_cons, List.map_cons, List.flatMap_cons, List.append_assoc, List.append_assoc,
      readUnits_crlf, ih]
    simp

/-- A line is read as a line. -/
theorem line_decode {l : GoString} (h : IsLine l) : 0x0D ∉ utf8Decode l := by
  intro hmem
  have hcount := count_utf8Decode l (a := 0x0D) (by decide)
  have hzero : l.count 0x0D = 0 := List.count_eq_zero.2 fun hm => (h _ hm).1 rfl
  rw [hzero] at hcount
  exact List.count_eq_zero.1 hcount hmem

/-- The end of the head is the first empty line. -/
theorem indexOf_blank {lines : List JsString} (h : ∀ l ∈ lines, 0x0D ∉ l ∧ l ≠ []) (hne : lines ≠ [])
    (rest : JsString) :
    ∃ i, indexOf (newline ++ newline) (lines.flatMap (fun l => l ++ newline) ++ (newline ++ rest)) =
        some i ∧
      i + 4 = (lines.flatMap (fun l => l ++ newline) ++ newline).length := by
  have hsub : newline ++ newline = 0x0D :: [0x0A, 0x0D, 0x0A] := rfl
  have htwo : newline.length = 2 := rfl
  induction lines with
  | nil => exact absurd rfl hne
  | cons l lines ih =>
    obtain ⟨hl, -⟩ := h l (List.mem_cons_self ..)
    rw [List.flatMap_cons, List.append_assoc, List.append_assoc, indexOf_append hsub hl]
    cases lines with
    | nil =>
      refine ⟨0 + l.length, ?_, ?_⟩
      · show Option.map _ (indexOf (newline ++ newline) (newline ++ ([] ++ (newline ++ rest)))) = _
        rw [List.nil_append, ← List.append_assoc, indexOf_self hsub]
        rfl
      · simp [htwo]
    | cons l' lines =>
      obtain ⟨i, hi, hlen⟩ := ih (fun k hk => h k (List.mem_cons_of_mem _ hk)) (List.cons_ne_nil _ _)
      obtain ⟨hl', hne'⟩ := h l' (List.mem_cons_of_mem _ (List.mem_cons_self ..))
      generalize htext : (l' :: lines).flatMap (fun l => l ++ newline) ++ (newline ++ rest) = text at *
      -- the next line does not start with a carriage return
      have hstart : indexOf (newline ++ newline) (newline ++ text) = some (i + 2) := by
        obtain ⟨c, l'', rfl⟩ := List.exists_cons_of_ne_nil hne'
        have hc : c ≠ 0x0D := fun hc => hl' (hc ▸ List.mem_cons_self ..)
        obtain ⟨text', rfl⟩ : ∃ text', text = c :: text' := by
          rw [← htext]
          exact ⟨_, rfl⟩
        have hno : (newline ++ newline).isPrefixOf (0x0D :: 0x0A :: c :: text') = false := by
          rw [hsub]
          simp [List.isPrefixOf, Ne.symm hc]
        show indexOf (newline ++ newline) (0x0D :: 0x0A :: c :: text') = some (i + 2)
        unfold indexOf
        rw [if_neg (by simp [hno]), indexOf_cons_ne hsub (by decide), hi]
        rfl
      refine ⟨i + 2 + l.length, ?_, ?_⟩
      · rw [hstart]
        rfl
      · simp only [List.length_append, htwo] at hlen ⊢
        omega

theorem statusLine_decode (status : Nat) (reason : GoString) :
    utf8Decode ("HTTP/1.1 " ++ itoa status ++ str " " ++ reason) =
      ascii "HTTP/1.1" ++ (ascii " " ++ (ascii (itoa status) ++ (ascii " " ++ utf8Decode reason))) := by
  have hprefix : ∀ b ∈ str "HTTP/1.1 " ++ itoa status ++ str " ", b.toNat < 0x80 := by
    intro b hb
    rcases List.mem_append.1 hb with hb | hb
    · rcases List.mem_append.1 hb with hb | hb
      · have hall : ∀ b ∈ str "HTTP/1.1 ", b.toNat < 0x80 := forall_of_all (by decide)
        exact hall b hb
      · exact Nat.lt_of_le_of_lt (mem_itoa hb).2 (by decide)
    · have hall : ∀ b ∈ str " ", b.toNat < 0x80 := forall_of_all (by decide)
      exact hall b hb
  rw [utf8Decode_append_ascii hprefix]
  unfold ascii
  simp only [List.map_append, List.append_assoc]
  rfl

/-- The second word of the status line. -/
theorem status_read (status : Nat) (reason : GoString) :
    splitSecond (ascii " ") (utf8Decode ("HTTP/1.1 " ++ itoa status ++ str " " ++ reason)) =
      some (ascii (itoa status)) := by
  have hsub : ascii (str " ") = 0x20 :: [] := rfl
  have hdigits : (0x20 : UInt16) ∉ ascii (itoa status) := by
    intro hmem
    exact absurd (mem_ascii_itoa hmem).1 (by decide)
  rw [statusLine_decode, splitSecond_append hsub (by decide), splitFirst_append hsub hdigits]

theorem Framing.header_line (f : Framing) : IsLine f.header ∧ f.header ≠ [] := by
  cases f with
  | contentLength body =>
    constructor
    · intro b hb
      rcases List.mem_append.1 hb with hb | hb
      · have hall : ∀ b ∈ str "Content-Length: ", b ≠ 0x0D ∧ b ≠ 0x0A := forall_of_all (by decide)
        exact hall b hb
      · have hlo := (mem_itoa hb).1
        constructor
        · rintro rfl
          exact absurd hlo (by decide)
        · rintro rfl
          exact absurd hlo (by decide)
    · exact List.append_ne_nil_of_left_ne_nil (by decide) _
  | chunked chunks =>
    have hall : ∀ b ∈ str "Transfer-Encoding: chunked", b ≠ 0x0D ∧ b ≠ 0x0A := forall_of_all (by decide)
    have hne : str "Transfer-Encoding: chunked" ≠ [] := by decide
    exact ⟨hall, hne⟩

theorem Reply.head_line (r : Reply) : ∀ l ∈ r.head, IsLine l ∧ l ≠ [] := by
  intro l hl
  rcases List.mem_cons.1 hl with rfl | hl
  · constructor
    · intro b hb
      rcases List.mem_append.1 hb with hb | hb
      · rcases List.mem_append.1 hb with hb | hb
        · rcases List.mem_append.1 hb with hb | hb
          · have hall : ∀ b ∈ str "HTTP/1.1 ", b ≠ 0x0D ∧ b ≠ 0x0A := forall_of_all (by decide)
            exact hall b hb
          · have hlo := (mem_itoa hb).1
            constructor
            · rintro rfl
              exact absurd hlo (by decide)
            · rintro rfl
              exact absurd hlo (by decide)
        · have hall : ∀ b ∈ str " ", b ≠ 0x0D ∧ b ≠ 0x0A := forall_of_all (by decide)
          exact hall b hb
      · exact r.reason_line b hb
    · nofun
  · rcases List.mem_append.1 hl with hl | hl
    · exact r.header_line l (List.mem_append_left _ hl)
    · rcases List.mem_cons.1 hl with rfl | hl
      · exact r.framing.header_line
      · exact r.header_line l (List.mem_append_right _ hl)

/-- What `vpcRequest` returns when it finds this text behind the head. -/
def bodyResult (status : Nat) (text : JsString) : VpcResult :=
  match (if text = [] then some (.obj []) else jsonParse text) with
  | some data => ⟨decide (status < 400), some status, data⟩
  | none => ⟨false, some status, errorData (if text = [] then ascii "Upstream error" else text)⟩

/-- `vpcRequest` finds the status and the text behind the head, in whatever order the headers are. -/
theorem vpcResponse_reply (r : Reply) :
    vpcResponse (readUnits .start r.bytes) =
      bodyResult r.status (trim (readUnits .start r.framing.bytes)) := by
  have hlines : ∀ l ∈ r.head.map utf8Decode, 0x0D ∉ l ∧ l ≠ [] := by
    intro l hl
    obtain ⟨k, hk, rfl⟩ := List.mem_map.1 hl
    obtain ⟨hline, hne⟩ := r.head_line k hk
    exact ⟨line_decode hline, utf8Decode_ne_nil hne⟩
  have htext : readUnits .start r.bytes =
      (r.head.map utf8Decode).flatMap (fun l => l ++ newline) ++
        (newline ++ readUnits .start r.framing.bytes) := by
    unfold Reply.bytes
    rw [List.append_assoc, readUnits_lines]
    have := readUnits_crlf [] r.framing.bytes
    rw [List.nil_append] at this
    rw [this]
    rfl
  have hne : r.head.map utf8Decode ≠ [] := List.cons_ne_nil _ _
  obtain ⟨i, hi, hlen⟩ := indexOf_blank hlines hne (readUnits .start r.framing.bytes)
  have hdrop : (readUnits .start r.bytes).drop (i + 4) = readUnits .start r.framing.bytes := by
    rw [htext, hlen, ← List.append_assoc, List.drop_left]
  have hfirst : splitFirst newline (readUnits .start r.bytes) =
      utf8Decode ("HTTP/1.1 " ++ itoa r.status ++ str " " ++ r.reason) := by
    have hsub : newline = 0x0D :: [0x0A] := rfl
    rw [htext]
    unfold Reply.head
    rw [List.map_cons, List.flatMap_cons, List.append_assoc, List.append_assoc]
    apply splitFirst_append hsub
    exact (hlines _ (List.mem_map_of_mem (List.mem_cons_self ..))).1
  have hdigits : ascii (itoa r.status) ≠ [] := fun h => itoa_ne_nil _ (List.map_eq_nil_iff.1 h)
  unfold vpcResponse
  rw [htext, hi, ← htext]
  dsimp only
  rw [hdrop, hfirst, status_read, Option.getD_some, if_neg hdigits, parseInt_itoa]
  have hok : decide (∃ n ∈ some (r.status : Int), n < 400) = decide (r.status < 400) := by
    apply decide_eq_decide.2
    constructor
    · rintro ⟨n, hn, hlt⟩
      obtain rfl := Option.some.inj hn
      omega
    · intro hlt
      exact ⟨_, rfl, by omega⟩
  unfold bodyResult
  cases (if trim (readUnits .start r.framing.bytes) = [] then some (.obj [])
    else jsonParse (trim (readUnits .start r.framing.bytes))) with
  | some data => simp only [hok]
  | none => rfl

/-! ## The body -/

theorem bodyResult_parsed {status : Nat} {text : JsString} {v : JsonValue} (hne : text ≠ [])
    (h : jsonParse text = some v) : bodyResult status text = ⟨decide (status < 400), some status, v⟩ := by
  unfold bodyResult
  rw [if_neg hne, h]

theorem bodyResult_refused {status : Nat} {text : JsString} (hne : text ≠ [])
    (h : jsonParse text = none) : bodyResult status text = ⟨false, some status, errorData text⟩ := by
  unfold bodyResult
  rw [if_neg hne, h, if_neg hne]

/-- A body that is JSON does not end inside a character. -/
theorem readUnits_json {body : GoString} {v : JsonValue} (h : jsonParse (utf8Decode body) = some v) :
    readUnits .start body = utf8Decode body := by
  by_cases hm : (utf8Run .start body).1.missing = 0
  · rw [utf8Decode_eq]
    unfold Utf8State.flush
    rw [if_pos hm]
    exact (List.append_nil _).symm
  · exfalso
    rw [utf8Decode_eq] at h
    unfold Utf8State.flush at h
    rw [if_neg hm] at h
    have hnone : jsonParse (readUnits .start body ++ [0xFFFD]) = none :=
      jsonParse_bad_end (by decide) (by decide)
    rw [show [runeError].flatMap utf16 = [0xFFFD] from rfl, hnone] at h
    cases h

/-- The sizes of the chunks. -/
theorem hexDigits_spec (fuel n : Nat) : ∀ b ∈ hexDigits fuel n, IsHexDigit b.toUInt16 ∧ b.toNat < 0x80 := by
  have hdigit : ∀ k < 16, IsHexDigit (hexDigit k).toUInt16 ∧ (hexDigit k).toNat < 0x80 := by
    unfold IsHexDigit
    decide
  induction fuel generalizing n with
  | zero => nofun
  | succ fuel ih =>
    intro b hb
    rcases List.mem_append.1 hb with hb | hb
    · split_ifs at hb
      · cases hb
      · exact ih _ b hb
    · rw [List.mem_singleton.1 hb]
      exact hdigit _ (Nat.mod_lt _ (by decide))

theorem hexText_ne_nil (n : Nat) : hexText n ≠ [] := by
  intro h
  exact absurd (List.append_eq_nil_iff.1 h).2 (List.cons_ne_nil _ _)

/-- The last chunk is read as itself, whatever stands in front of it. -/
theorem readUnits_lastChunk (text : GoString) :
    readUnits .start (text ++ str "0" ++ crlf ++ crlf) =
      utf8Decode text ++ [0x30] ++ (newline ++ newline) := by
  have hzero : text ++ str "0" ++ crlf ++ crlf = text ++ 0x30 :: (crlf ++ crlf) := by
    rw [List.append_assoc, List.append_assoc]
    rfl
  rw [hzero, readUnits_append_ascii text (by decide)]
  have hend : readUnits .start (crlf ++ crlf) = newline ++ newline := by decide
  rw [hend]
  simp

/-- The chunks of a body that is not empty are no JSON: what `vpcRequest` has in hand starts with a size
and ends with the size of the last chunk. -/
theorem chunked_text {chunks : List GoString} (hne : chunks ≠ []) :
    ∃ hex rest, hex ≠ [] ∧ (∀ u ∈ hex, IsHexDigit u) ∧
      trim (readUnits .start (Framing.chunked chunks).bytes) = hex ++ 0x0D :: (rest ++ [0x30]) ∧
      readUnits .start (Framing.chunked chunks).bytes =
        trim (readUnits .start (Framing.chunked chunks).bytes) ++ (newline ++ newline) := by
  cases chunks with
  | nil => exact absurd rfl hne
  | cons c cs =>
    let frame := fun c : GoString => hexText c.length ++ crlf ++ c ++ crlf
    let hex := ascii (hexText c.length)
    have hascii : ∀ b ∈ hexText c.length, b.toNat < 0x80 := fun b hb => (hexDigits_spec _ _ b hb).2
    have hhex : ∀ u ∈ hex, IsHexDigit u := by
      intro u hu
      obtain ⟨b, hb, rfl⟩ := List.mem_map.1 hu
      exact (hexDigits_spec _ _ b hb).1
    have hexNe : hex ≠ [] := fun h => hexText_ne_nil _ (List.map_eq_nil_iff.1 h)
    obtain ⟨rest, hrest⟩ : ∃ rest, utf8Decode ((c :: cs).flatMap frame) = hex ++ 0x0D :: rest := by
      refine ⟨0x0A :: utf8Decode (c ++ crlf ++ cs.flatMap frame), ?_⟩
      have hbytes : (c :: cs).flatMap frame =
          hexText c.length ++ (0x0D :: 0x0A :: (c ++ crlf ++ cs.flatMap frame)) := by
        show hexText c.length ++ crlf ++ c ++ crlf ++ cs.flatMap frame = _
        simp [crlf]
      rw [hbytes, utf8Decode_append_ascii hascii, utf8Decode_cons_ascii (by decide),
        utf8Decode_cons_ascii (by decide)]
      rfl
    have htext : readUnits .start (Framing.chunked (c :: cs)).bytes =
        [] ++ (hex ++ 0x0D :: (rest ++ [0x30])) ++ (newline ++ newline) := by
      show readUnits .start ((c :: cs).flatMap frame ++ str "0" ++ crlf ++ crlf) = _
      rw [readUnits_lastChunk, hrest]
      simp
    have htrim : trim (readUnits .start (Framing.chunked (c :: cs)).bytes) =
        hex ++ 0x0D :: (rest ++ [0x30]) := by
      obtain ⟨d, hex', hd⟩ := List.exists_cons_of_ne_nil hexNe
      have hgraphic : isTrimSpace d = false := by
        have hbounds := hexDigit_bounds (hhex d (hd ▸ List.mem_cons_self ..))
        unfold isTrimSpace
        simp
        omega
      have hnil : ∀ u ∈ ([] : JsString), isTrimSpace u = true := nofun
      have hspace : ∀ u ∈ newline ++ newline, isTrimSpace u = true := forall_of_all (by decide)
      rw [htext]
      refine strip_eq hnil hspace (x := d) (y := 0x30) ?_ hgraphic ?_ rfl
      · rw [hd]
        rfl
      · rw [← List.cons_append, ← List.append_assoc, List.getLast?_concat]
    refine ⟨hex, rest, hexNe, hhex, htrim, ?_⟩
    rw [htrim, htext]
    rfl

/-- The text of the chunks has the quotes and the backslashes of the body. -/
theorem chunked_count (chunks : List GoString) {a : UInt8} (ha : a = 0x22 ∨ a = 0x5C) :
    (readUnits .start (Framing.chunked chunks).bytes).count a.toUInt16 =
      (utf8Decode (Framing.chunked chunks).body).count a.toUInt16 := by
  have hascii : a.toNat < 0x80 := by
    rcases ha with rfl | rfl <;> decide
  have hhex : ∀ n, (hexText n).count a = 0 := by
    intro n
    apply List.count_eq_zero.2
    intro hmem
    have hdigit := hexDigit_bounds (hexDigits_spec _ _ a hmem).1
    rw [UInt8.toNat_toUInt16] at hdigit
    rcases ha with rfl | rfl
    · exact absurd hdigit (by decide)
    · exact absurd hdigit (by decide)
  have hcrlf : crlf.count a = 0 := by
    rcases ha with rfl | rfl <;> decide
  have hzero : (str "0").count a = 0 := by
    rcases ha with rfl | rfl <;> decide
  have hframes : (chunks.flatMap fun c => hexText c.length ++ crlf ++ c ++ crlf).count a =
      chunks.flatten.count a := by
    induction chunks with
    | nil => rfl
    | cons c cs ih =>
      rw [List.flatMap_cons, List.flatten_cons]
      simp only [List.count_append, hhex, hcrlf, ih]
      omega
  rw [count_readUnits _ _ hascii, count_utf8Decode _ hascii]
  show (chunks.flatMap (fun c => hexText c.length ++ crlf ++ c ++ crlf) ++ str "0" ++ crlf ++ crlf).count a =
    chunks.flatten.count a
  rw [List.count_append, List.count_append, List.count_append, hframes, hzero, hcrlf]
  rfl

theorem count_newlines {a : UInt16} (ha : a = 0x22 ∨ a = 0x5C) : (newline ++ newline).count a = 0 := by
  rcases ha with rfl | rfl <;> decide

/-- The object around the text of the chunks is not the body: the body would need a backslash for every
quote and every backslash that it has itself. -/
theorem chunked_not_body {chunks : List GoString} {v : JsonValue}
    (h : jsonParse (utf8Decode (Framing.chunked chunks).body) = some v) (hne : chunks ≠ []) :
    errorData (trim (readUnits .start (Framing.chunked chunks).bytes)) ≠ v := by
  rintro rfl
  obtain ⟨hquote, hmarks⟩ := jsonParse_member h
  obtain ⟨-, -, -, -, -, htext⟩ := chunked_text hne
  have hq : (trim (readUnits .start (Framing.chunked chunks).bytes)).count 0x22 =
      (utf8Decode (Framing.chunked chunks).body).count 0x22 := by
    have := chunked_count chunks (a := 0x22) (.inl rfl)
    rw [htext, List.count_append] at this
    have hend := count_newlines (a := 0x22) (.inl rfl)
    rw [show ((0x22 : UInt8).toUInt16) = 0x22 from rfl, hend] at this
    exact this
  have hb : (trim (readUnits .start (Framing.chunked chunks).bytes)).count 0x5C =
      (utf8Decode (Framing.chunked chunks).body).count 0x5C := by
    have := chunked_count chunks (a := 0x5C) (.inr rfl)
    rw [htext, List.count_append] at this
    have hend := count_newlines (a := 0x5C) (.inr rfl)
    rw [show ((0x5C : UInt8).toUInt16) = 0x5C from rfl, hend] at this
    exact this
  have hpos := List.count_pos_iff.2 hquote
  unfold marks at hmarks
  omega

/-! ## The answer -/

theorem Reply.bytes_head (r : Reply) : ∃ rest, r.bytes = 0x48 :: rest := ⟨_, rfl⟩

/-- What `vpcRequest` returns depends on the bytes of the reply alone. -/
theorem vpcRequest_answered {net : Network} {url : Url} {token method path : JsString}
    {body : Option JsString} {e2e : Bool} {reply : Reply} (vpcUrl : JsString)
    (h : Answers net url.address (requestText url.hostname token method path body e2e) reply) :
    vpcRequest net url vpcUrl token method path body e2e =
      bodyResult reply.status (trim (readUnits .start reply.framing.bytes)) := by
  obtain ⟨values, hsocket, hvalues⟩ := h
  obtain ⟨rest, hrest⟩ := reply.bytes_head
  have hread : TextDecoder.new.readAll values = readUnits .start reply.bytes := by
    rw [hrest] at hvalues ⊢
    exact readAll_new (by decide) hvalues
  unfold vpcRequest
  rw [hsocket]
  dsimp only
  rw [hread, vpcResponse_reply]

/-- `vpcRequest` returns the status and the decoded body of a reply exactly if the reply is not framed
in chunks. -/
theorem vpcRequest_decodes_iff {net : Network} {url : Url} {token method path : JsString}
    {body : Option JsString} {e2e : Bool} {reply : Reply} {v : JsonValue} (vpcUrl : JsString)
    (h : Answers net url.address (requestText url.hostname token method path body e2e) reply)
    (hbody : jsonParse (utf8Decode reply.body) = some v) :
    vpcRequest net url vpcUrl token method path body e2e =
      ⟨decide (reply.status < 400), some reply.status, v⟩ ↔ ¬ reply.Chunked := by
  rw [vpcRequest_answered vpcUrl h]
  unfold Reply.Chunked
  unfold Reply.body at hbody
  cases hframing : reply.framing with
  | contentLength text =>
    rw [hframing] at hbody
    obtain ⟨hne, hparse⟩ : trim (utf8Decode text) ≠ [] ∧ jsonParse (trim (utf8Decode text)) = some v :=
      jsonParse_trim hbody
    have hread : readUnits .start (Framing.contentLength text).bytes = utf8Decode text :=
      readUnits_json hbody
    rw [hread, bodyResult_parsed hne hparse]
    constructor
    · rintro - ⟨chunks, hchunks⟩
      cases hchunks
    · intro _
      rfl
  | chunked chunks =>
    rw [hframing] at hbody
    have hne : chunks ≠ [] := by
      rintro rfl
      have hnone : jsonParse (utf8Decode (Framing.chunked []).body) = none := by decide
      rw [hnone] at hbody
      cases hbody
    have hdiffer := chunked_not_body hbody hne
    obtain ⟨hex, rest, hexNe, hhex, htrim, -⟩ := chunked_text hne
    have hnot : trim (readUnits .start (Framing.chunked chunks).bytes) ≠ [] := by
      rw [htrim]
      exact List.append_ne_nil_of_left_ne_nil hexNe _
    have hnone : jsonParse (trim (readUnits .start (Framing.chunked chunks).bytes)) = none := by
      rw [htrim]
      exact jsonParse_chunk hexNe hhex
    rw [bodyResult_refused hnot hnone]
    constructor
    · intro heq
      exact absurd (VpcResult.mk.inj heq).2.2 hdiffer
    · intro hchunked
      exact absurd ⟨chunks, rfl⟩ hchunked

/-- A reply with the body `{}` in this framing. -/
def emptyObject (framing : Framing) : Reply where
  status := 200
  reason := "OK"
  before := [str "Content-Type: application/json"]
  framing := framing
  after := []
  three_digits := by decide
  reason_line := forall_of_all (by decide)
  header_line := by
    intro l hl
    obtain rfl := List.mem_singleton.1 hl
    exact ⟨forall_of_all (by decide), nofun⟩

/-- A relay that gives this reply in two pieces to every request. -/
def echo (reply : Reply) : Network :=
  ⟨fun _ _ => .ok [reply.bytes.take 9, reply.bytes.drop 9], fun _ => none⟩

theorem relayHost_ascii : ∀ u ∈ ascii "10.0.0.1", 0x20 < u ∧ u < 0x7F := forall_of_all (by decide)

/-- The relay at its port. -/
def relayUrl : Url := ⟨ascii "10.0.0.1", ascii "5150", relayHost_ascii⟩

theorem echo_answers (reply : Reply) (address request : JsString) :
    Answers (echo reply) address request reply := by
  refine ⟨[reply.bytes.take 9, reply.bytes.drop 9], rfl, ?_⟩
  simp

theorem vpcRequest_decodes_emptyObject :
    vpcRequest (echo (emptyObject (.contentLength "{}"))) relayUrl [] [] (ascii "GET") (ascii "/") none
        false = ⟨true, some 200, .obj []⟩ ↔
      ¬ (emptyObject (.contentLength "{}")).Chunked :=
  vpcRequest_decodes_iff [] (echo_answers _ _ _) rfl

theorem vpcRequest_loses_chunked : ¬ ∀ (net : Network) (url : Url) (vpcUrl token method path : JsString)
    (body : Option JsString) (e2e : Bool) (reply : Reply) (v : JsonValue),
    Answers net url.address (requestText url.hostname token method path body e2e) reply →
    jsonParse (utf8Decode reply.body) = some v →
    vpcRequest net url vpcUrl token method path body e2e =
      ⟨decide (reply.status < 400), some reply.status, v⟩ := by
  intro h
  let reply := emptyObject (.chunked [str "{}"])
  have hok := congrArg VpcResult.ok
    (h (echo reply) relayUrl [] [] (ascii "GET") (ascii "/") none false reply (.obj [])
      (echo_answers _ _ _) rfl)
  have hfalse : (vpcRequest (echo reply) relayUrl [] [] (ascii "GET") (ascii "/") none false).ok =
      false := by
    decide
  rw [hfalse] at hok
  cases hok

end Gafam.Frontend
