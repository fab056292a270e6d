import Gafam.Frontend.VpcProxy
import Gafam.Go.Proofs.TextProofs

/-!
# What the server reads of a request

A text is at least as long in UTF-8 as in UTF-16 code units, and longer as soon as one character lies
outside ASCII. The generic SMS route declares the one length and sends the other.
-/

namespace Gafam.Frontend

open Gafam.Go Gafam.Js
open Gafam.Relay (textEncode)

/-! ## The bytes of a text -/

theorem decodeSurrogates_ascii {u : UInt16} (hu : IsAscii u) (v : Nat) :
    decodeSurrogates u.toNat v = none := by
  have hlt : u.toNat < 0x80 := UInt16.lt_iff_toNat_lt.1 hu
  unfold decodeSurrogates
  apply if_neg
  omega

theorem isSurrogate_ascii {u : UInt16} (hu : IsAscii u) : isSurrogate u.toNat = false := by
  have hlt : u.toNat < 0x80 := UInt16.lt_iff_toNat_lt.1 hu
  unfold isSurrogate
  simp only [Bool.and_eq_false_imp, decide_eq_true_eq, decide_eq_false_iff_not]
  omega

/-- The encoding of one ASCII character. -/
theorem encodeRune_ascii {u : UInt16} (hu : IsAscii u) :
    encodeRune (if isSurrogate u.toNat then runeError else u.toNat) = [u.toUInt8] := by
  have hlt : u.toNat < 0x80 := UInt16.lt_iff_toNat_lt.1 hu
  rw [isSurrogate_ascii hu, if_neg (by decide)]
  unfold encodeRune
  rw [if_pos hlt]
  have hbyte : UInt8.ofNat u.toNat = u.toUInt8 := by
    apply UInt8.toNat_inj.1
    simp
  rw [hbyte]

theorem textEncode_cons {u : UInt16} (hu : IsAscii u) (s : JsString) :
    textEncode (u :: s) = u.toUInt8 :: textEncode s := by
  cases s with
  | nil =>
    unfold textEncode
    exact encodeRune_ascii hu
  | cons v s =>
    conv_lhs => unfold textEncode
    rw [decodeSurrogates_ascii hu]
    dsimp only
    rw [encodeRune_ascii hu]
    rfl

/-- The encoding of a text that starts in ASCII. -/
theorem textEncode_append {a : JsString} (ha : ∀ u ∈ a, IsAscii u) (s : JsString) :
    textEncode (a ++ s) = a.map UInt16.toUInt8 ++ textEncode s := by
  induction a with
  | nil => rfl
  | cons u a ih =>
    have hu : IsAscii u := ha u (List.mem_cons_self ..)
    have hrest := ih fun v hv => ha v (List.mem_cons_of_mem _ hv)
    rw [List.cons_append, textEncode_cons hu, hrest]
    rfl

/-- The number of bytes of a rune. -/
theorem length_encodeRune (r : Nat) :
    (encodeRune r).length = if r < 0x80 then 1 else if r < 0x800 then 2 else if r < 0x10000 then 3 else 4 := by
  unfold encodeRune
  split_ifs <;> rfl

/-- A code unit that is not part of a pair. -/
theorem length_encode_unit (u : UInt16) :
    1 ≤ (encodeRune (if isSurrogate u.toNat then runeError else u.toNat)).length ∧
      ((encodeRune (if isSurrogate u.toNat then runeError else u.toNat)).length = 1 ↔ IsAscii u) := by
  by_cases hu : IsAscii u
  · rw [encodeRune_ascii hu]
    exact ⟨Nat.le_refl _, fun _ => hu, fun _ => rfl⟩
  · have hge : ¬ u.toNat < 0x80 := fun h => hu (UInt16.lt_iff_toNat_lt.2 h)
    have hrune : ¬ (if isSurrogate u.toNat then runeError else u.toNat) < 0x80 := by
      split_ifs
      · decide
      · exact hge
    rw [length_encodeRune, if_neg hrune]
    constructor
    · split_ifs <;> omega
    · constructor
      · intro h
        split_ifs at h <;> omega
      · intro h
        exact absurd h hu

/-- A pair of surrogates takes four bytes. -/
theorem length_encode_pair {u v r : Nat} (h : decodeSurrogates u v = some r) :
    (encodeRune r).length = 4 := by
  unfold decodeSurrogates at h
  split_ifs at h with hpair
  obtain rfl := Option.some.inj h
  rw [length_encodeRune, if_neg (by omega), if_neg (by omega), if_neg (by omega)]

/-- A text has at least as many bytes as code units, and as many only in ASCII. -/
theorem length_textEncode (s : JsString) :
    s.length ≤ (textEncode s).length ∧
      ((textEncode s).length = s.length ↔ ∀ u ∈ s, IsAscii u) := by
  induction s using Gafam.Relay.textEncode.induct with
  | case1 => exact ⟨Nat.le_refl _, fun _ => nofun, fun _ => rfl⟩
  | case2 u =>
    obtain ⟨hle, hiff⟩ := length_encode_unit u
    unfold textEncode
    refine ⟨hle, ?_⟩
    rw [List.length_singleton, hiff]
    simp
  | case3 u v rest r hpair ih =>
    obtain ⟨hle, -⟩ := ih
    have hfour := length_encode_pair hpair
    unfold textEncode
    rw [hpair]
    dsimp only
    rw [List.length_append, List.length_cons, List.length_cons, hfour]
    refine ⟨by omega, fun h => by omega, fun h => ?_⟩
    have hu := decodeSurrogates_ascii (h u (List.mem_cons_self ..)) v.toNat
    rw [hpair] at hu
    cases hu
  | case4 u v rest hpair ih =>
    obtain ⟨hle, hiff⟩ := ih
    obtain ⟨hle', hiff'⟩ := length_encode_unit u
    unfold textEncode
    rw [hpair]
    dsimp only
    rw [List.length_append, List.length_cons]
    refine ⟨by omega, fun h => ?_, fun h => ?_⟩
    · have hone := hiff'.1 (by omega)
      have hrest := hiff.1 (by omega)
      intro w hw
      rcases List.mem_cons.1 hw with rfl | hw
      · exact hone
      · exact hrest w hw
    · have hone := hiff'.2 (h u (List.mem_cons_self ..))
      have hrest := hiff.2 fun w hw => h w (List.mem_cons_of_mem _ hw)
      omega

/-! ## Lines -/

/-- A line of a request: printable ASCII, and not empty. -/
def IsText (l : JsString) : Prop := ∀ u ∈ l, 0x20 ≤ u ∧ u < 0x7F

instance (l : JsString) : Decidable (IsText l) :=
  List.decidableBAll (fun u => 0x20 ≤ u ∧ u < 0x7F) l

theorem isText_append {a b : JsString} (ha : IsText a) (hb : IsText b) : IsText (a ++ b) := by
  intro u hu
  rcases List.mem_append.1 hu with hu | hu
  · exact ha u hu
  · exact hb u hu

theorem IsText.ascii {l : JsString} (h : IsText l) : ∀ u ∈ l, IsAscii u := by
  intro u hu
  have hlt := UInt16.lt_iff_toNat_lt.1 (h u hu).2
  apply UInt16.lt_iff_toNat_lt.2
  exact Nat.lt_trans hlt (by decide)

theorem textEncode_text {l : JsString} (h : IsText l) : textEncode l = l.map UInt16.toUInt8 := by
  have := textEncode_append h.ascii []
  rw [List.append_nil] at this
  rw [this]
  exact List.append_nil _

/-- The bytes of a line do not end it. -/
theorem isLine_text {l : JsString} (h : IsText l) : IsLine (l.map UInt16.toUInt8) := by
  intro b hb
  obtain ⟨u, hu, rfl⟩ := List.mem_map.1 hb
  have hle := UInt16.le_iff_toNat_le.1 (h u hu).1
  have hlt := UInt16.lt_iff_toNat_lt.1 (h u hu).2
  have hnat : u.toUInt8.toNat = u.toNat := by
    rw [UInt16.toNat_toUInt8]
    apply Nat.mod_eq_of_lt
    exact Nat.lt_trans hlt (by decide)
  have hge : 32 ≤ u.toUInt8.toNat := by rw [hnat]; exact hle
  constructor
  · intro h
    rw [h] at hge
    exact absurd hge (by decide)
  · intro h
    rw [h] at hge
    exact absurd hge (by decide)

theorem join_lines (lines : List JsString) (body : JsString) :
    join newline (lines ++ [[], body]) =
      lines.flatMap (fun l => l ++ newline) ++ (newline ++ body) := by
  induction lines with
  | nil =>
    unfold join
    simp [List.intercalate]
  | cons l lines ih =>
    unfold join at ih ⊢
    cases lines with
    | nil =>
      show newline.intercalate (l :: [] :: [body]) = _
      rw [List.intercalate_cons_cons]
      simp [List.intercalate]
    | cons l' lines =>
      rw [List.cons_append, List.cons_append, List.intercalate_cons_cons, ← List.cons_append, ih]
      simp

theorem newline_ascii : ∀ u ∈ newline, IsAscii u := forall_of_all (by decide)

/-- The bytes of a head and what follows it. -/
theorem textEncode_lines {lines : List JsString} (h : ∀ l ∈ lines, IsText l) (s : JsString) :
    textEncode (lines.flatMap (fun l => l ++ newline) ++ s) =
      (lines.map textEncode).flatMap (fun l => l ++ crlf) ++ textEncode s := by
  induction lines with
  | nil => rfl
  | cons l lines ih =>
    have hl := h l (List.mem_cons_self ..)
    have hrest := ih fun l' hl' => h l' (List.mem_cons_of_mem _ hl')
    rw [List.flatMap_cons, List.map_cons, List.flatMap_cons, List.append_assoc, List.append_assoc,
      List.append_assoc, List.append_assoc, textEncode_append hl.ascii,
      textEncode_append newline_ascii, hrest, textEncode_text hl]
    rfl

/-! ## Reading the head -/

theorem dropReturn_line {l : GoString} : dropReturn (l ++ [0x0D]) = l := by
  unfold dropReturn
  rw [List.getLast?_concat, if_pos rfl, List.dropLast_concat]

/-- A line up to its end. -/
theorem readHead_line {l : GoString} (h : IsLine l) (line rest : GoString) :
    readHead line (l ++ rest) = readHead (line ++ l) rest := by
  induction l generalizing line with
  | nil => rw [List.append_nil]; rfl
  | cons b l ih =>
    have hb := (h b (List.mem_cons_self ..)).2
    have hrest := ih (fun c hc => h c (List.mem_cons_of_mem _ hc)) (line ++ [b])
    rw [List.cons_append, readHead, if_neg hb, hrest, List.append_assoc]
    rfl

theorem readHead_crlf (line rest : GoString) :
    readHead line (crlf ++ rest) =
      if line = [] then some ([], rest) else (readHead [] rest).map fun p => (line :: p.1, p.2) := by
  show readHead line (0x0D :: 0x0A :: rest) = _
  rw [readHead, if_neg (by decide), readHead, if_pos rfl, dropReturn_line]

/-- The server reads the lines as they were written. -/
theorem readHead_lines {lines : List GoString} (h : ∀ l ∈ lines, IsLine l ∧ l ≠ [])
    (rest : GoString) :
    readHead [] (lines.flatMap (fun l => l ++ crlf) ++ (crlf ++ rest)) = some (lines, rest) := by
  induction lines with
  | nil =>
    show readHead [] (crlf ++ rest) = some ([], rest)
    rw [readHead_crlf, if_pos rfl]
  | cons l lines ih =>
    obtain ⟨hline, hne⟩ := h l (List.mem_cons_self ..)
    have hrest := ih fun l' hl' => h l' (List.mem_cons_of_mem _ hl')
    rw [List.flatMap_cons, List.append_assoc, List.append_assoc, readHead_line hline,
      List.nil_append, readHead_crlf, if_neg hne, hrest]
    rfl

/-- A header line of another name. -/
theorem headerValue_other {name key value : GoString} (hkey : ∀ b ∈ key, b ≠ 0x3A)
    (h : equalFoldAscii key name = false) : headerValue name (key ++ 0x3A :: value) = none := by
  have hall : ∀ b ∈ key, (b != 0x3A) = true := fun b hb => by simpa using hkey b hb
  unfold headerValue
  rw [List.dropWhile_append_of_pos hall, List.takeWhile_append_of_pos hall]
  simp [h]

/-- The header line of this name. -/
theorem headerValue_self {name key value : GoString} (hkey : ∀ b ∈ key, b ≠ 0x3A)
    (h : equalFoldAscii key name = true) :
    headerValue name (key ++ 0x3A :: value) = some (trimCutset [0x20, 0x09, 0x0A, 0x0D] value) := by
  have hall : ∀ b ∈ key, (b != 0x3A) = true := fun b hb => by simpa using hkey b hb
  unfold headerValue
  rw [List.dropWhile_append_of_pos hall, List.takeWhile_append_of_pos hall]
  simp [h]

/-- A number behind a blank. -/
theorem readDigits_itoa (n : Nat) :
    readDigits (trimCutset [0x20, 0x09, 0x0A, 0x0D] (0x20 :: itoa n)) = some n := by
  have hspace : ∀ b ∈ itoa n, ¬ b ∈ ([0x20, 0x09, 0x0A, 0x0D] : GoString) := by
    intro b hb hmem
    obtain ⟨hlo, -⟩ := mem_itoa hb
    have hsmall : ∀ c ∈ ([0x20, 0x09, 0x0A, 0x0D] : GoString), c.toNat < 48 := forall_of_all (by decide)
    have := hsmall b hmem
    omega
  have hdrop : ∀ s : GoString, (∀ b ∈ s, ¬ b ∈ ([0x20, 0x09, 0x0A, 0x0D] : GoString)) →
      s.dropWhile (fun b => decide (b ∈ ([0x20, 0x09, 0x0A, 0x0D] : GoString))) = s := by
    intro s hs
    cases s with
    | nil => rfl
    | cons b s =>
      rw [List.dropWhile_cons, if_neg]
      simpa using hs b (List.mem_cons_self ..)
  have htrim : trimCutset [0x20, 0x09, 0x0A, 0x0D] (0x20 :: itoa n) = itoa n := by
    unfold trimCutset
    rw [List.dropWhile_cons, if_pos (by decide), hdrop _ hspace,
      hdrop _ fun b hb => hspace b (List.mem_reverse.1 hb), List.reverse_reverse]
  rw [htrim]
  have hdigits : (itoa n).all Go.isDigit = true := by
    apply List.all_eq_true.2
    intro b hb
    obtain ⟨hlo, hhi⟩ := mem_itoa hb
    unfold Go.isDigit
    simp only [Bool.and_eq_true, decide_eq_true_eq]
    exact ⟨UInt8.le_iff_toNat_le.2 hlo, UInt8.le_iff_toNat_le.2 hhi⟩
  unfold readDigits
  rw [if_pos ⟨itoa_ne_nil n, hdigits⟩, digitsValue_itoa]

/-! ## `encodeURIComponent` -/

theorem upperHexDigit_bounds : ∀ n < 16, 0x20 ≤ (upperHexDigit n).toUInt16 ∧
    (upperHexDigit n).toUInt16 < 0x7F := by
  decide

theorem percent_text (s : GoString) : IsText (ascii (s.flatMap percentByte)) := by
  intro u hu
  obtain ⟨b, hb, rfl⟩ := List.mem_map.1 hu
  obtain ⟨c, -, hc⟩ := List.mem_flatMap.1 hb
  have hhi : c.toNat / 16 < 16 := by
    have := c.toNat_lt
    omega
  have hlo : c.toNat % 16 < 16 := Nat.mod_lt _ (by decide)
  unfold percentByte at hc
  simp only [List.mem_cons, List.not_mem_nil, or_false] at hc
  rcases hc with rfl | rfl | rfl
  · decide
  · exact upperHexDigit_bounds _ hhi
  · exact upperHexDigit_bounds _ hlo

theorem unreserved_text {u : UInt16} (h : isUnreserved u = true) : 0x20 ≤ u ∧ u < 0x7F := by
  unfold isUnreserved Js.isDigit at h
  simp only [Bool.or_eq_true, Bool.and_eq_true, decide_eq_true_eq] at h
  have hmarks : ∀ v ∈ ascii (str "-_.!~*'()"), 0x20 ≤ v ∧ v < 0x7F := forall_of_all (by decide)
  have hrange : ∀ lo hi : UInt16, 0x20 ≤ lo → hi < 0x7F → lo ≤ u ∧ u ≤ hi → 0x20 ≤ u ∧ u < 0x7F := by
    rintro lo hi hlo hhi ⟨h1, h2⟩
    rw [UInt16.le_iff_toNat_le] at hlo h1 h2 ⊢
    rw [UInt16.lt_iff_toNat_lt] at hhi ⊢
    omega
  rcases h with ((h | h) | h) | h
  · exact hrange _ _ (by decide) (by decide) h
  · exact hrange _ _ (by decide) (by decide) h
  · exact hrange _ _ (by decide) (by decide) h
  · exact hmarks u h

theorem encodeURIComponent_text {s t : JsString} (h : encodeURIComponent s = some t) : IsText t := by
  induction s using encodeURIComponent.induct generalizing t with
  | case1 =>
    obtain rfl := Option.some.inj h
    nofun
  | case2 u hu =>
    unfold encodeURIComponent at h
    rw [if_pos hu] at h
    obtain rfl := Option.some.inj h
    intro v hv
    obtain rfl := List.mem_singleton.1 hv
    exact unreserved_text hu
  | case3 u hu hs =>
    unfold encodeURIComponent at h
    rw [if_neg hu, if_pos hs] at h
    cases h
  | case4 u hu hs =>
    unfold encodeURIComponent at h
    rw [if_neg hu, if_neg hs] at h
    obtain rfl := Option.some.inj h
    exact percent_text _
  | case5 u v rest hu ih =>
    unfold encodeURIComponent at h
    rw [if_pos hu] at h
    obtain ⟨t', ht', rfl⟩ := Option.map_eq_some_iff.1 h
    intro w hw
    rcases List.mem_cons.1 hw with rfl | hw
    · exact unreserved_text hu
    · exact ih ht' w hw
  | case6 u v rest hu r hpair ih =>
    unfold encodeURIComponent at h
    rw [if_neg hu, hpair] at h
    obtain ⟨t', ht', rfl⟩ := Option.map_eq_some_iff.1 h
    exact isText_append (percent_text _) (ih ht')
  | case7 u v rest hu hpair hs =>
    unfold encodeURIComponent at h
    rw [if_neg hu, hpair] at h
    dsimp only at h
    rw [if_pos hs] at h
    cases h
  | case8 u v rest hu hpair hs ih =>
    unfold encodeURIComponent at h
    rw [if_neg hu, hpair] at h
    dsimp only at h
    rw [if_neg hs] at h
    obtain ⟨t', ht', rfl⟩ := Option.map_eq_some_iff.1 h
    exact isText_append (percent_text _) (ih ht')

/-! ## The generic SMS route -/

theorem Url.hostname_text (url : Url) : IsText url.hostname := by
  intro u hu
  obtain ⟨hlo, hhi⟩ := url.hostname_ascii u hu
  rw [UInt16.lt_iff_toNat_lt] at hlo
  exact ⟨UInt16.le_iff_toNat_le.2 (Nat.le_of_lt hlo), hhi⟩

theorem decimal_text (n : Nat) : IsText (decimal n) := by
  intro u hu
  obtain ⟨b, hb, rfl⟩ := List.mem_map.1 hu
  obtain ⟨hlo, hhi⟩ := mem_itoa hb
  rw [UInt16.le_iff_toNat_le, UInt16.lt_iff_toNat_lt, UInt8.toNat_toUInt16]
  exact ⟨Nat.le_trans (by decide) hlo, Nat.lt_of_le_of_lt hhi (by decide)⟩

/-- An ASCII text has the bytes it is made of. -/
theorem textEncode_ascii {s : GoString} (h : IsText (ascii s)) : textEncode (ascii s) = s := by
  rw [textEncode_text h]
  unfold ascii
  rw [List.map_map]
  apply List.map_id''
  intro b
  exact UInt8.toUInt8_toUInt16 b

/-- What the server reads of a request of these lines. -/
theorem readRequest_join {lines : List JsString} (h : ∀ l ∈ lines, IsText l ∧ l ≠ [])
    (body : JsString) {n : Nat} (hlen : declaredLength (lines.map textEncode) = some n)
    (hn : n ≤ (textEncode body).length) :
    readRequest (textEncode (join newline (lines ++ [[], body]))) =
      some ⟨lines.map textEncode, (textEncode body).take n, (textEncode body).drop n⟩ := by
  have hbytes : textEncode (join newline (lines ++ [[], body])) =
      (lines.map textEncode).flatMap (fun l => l ++ crlf) ++ (crlf ++ textEncode body) := by
    rw [join_lines, textEncode_lines fun l hl => (h l hl).1, textEncode_append newline_ascii]
    rfl
  have hlines : ∀ l ∈ lines.map textEncode, IsLine l ∧ l ≠ [] := by
    intro l hl
    obtain ⟨t, ht, rfl⟩ := List.mem_map.1 hl
    obtain ⟨htext, hne⟩ := h t ht
    rw [textEncode_text htext]
    exact ⟨isLine_text htext, fun h => hne (List.map_eq_nil_iff.1 h)⟩
  unfold readRequest
  rw [hbytes, readHead_lines hlines]
  dsimp only
  rw [hlen, Option.getD_some, if_neg (Nat.not_lt.2 hn)]

/-- A header with a key in ASCII. -/
theorem textEncode_header (key : GoString) (hkey : IsText (ascii (key ++ [0x3A, 0x20])))
    (value : JsString) :
    textEncode (ascii (key ++ [0x3A, 0x20]) ++ value) = key ++ 0x3A :: 0x20 :: textEncode value := by
  have hown := textEncode_ascii hkey
  rw [textEncode_text hkey] at hown
  rw [textEncode_append hkey.ascii, hown]
  simp

/-- The header that declares a length. -/
theorem contentLength_declares (n : Nat) :
    (headerValue "Content-Length" (textEncode (ascii "Content-Length: " ++ decimal n))).bind readDigits =
      some n := by
  have hline : textEncode (ascii "Content-Length: " ++ decimal n) =
      str "Content-Length" ++ 0x3A :: 0x20 :: itoa n := by
    have := textEncode_header (str "Content-Length") (forall_of_all (by decide)) (decimal n)
    rw [show textEncode (decimal n) = itoa n from textEncode_ascii (decimal_text n)] at this
    exact this
  rw [hline, headerValue_self (forall_of_all (by decide)) (by decide)]
  rw [Option.bind_some]
  exact readDigits_itoa n

theorem host_declares_nothing (host : JsString) :
    headerValue "Content-Length" (textEncode (ascii "Host: " ++ host)) = none := by
  have := textEncode_header (str "Host") (forall_of_all (by decide)) host
  rw [show textEncode (ascii "Host: " ++ host) = str "Host" ++ 0x3A :: 0x20 :: textEncode host from this]
  exact headerValue_other (forall_of_all (by decide)) (by decide)

theorem outboxLines_text (url : Url) (payload : JsString) {token : JsString} (htoken : IsText token) :
    ∀ l ∈ outboxLines url.hostname token payload, IsText l ∧ l ≠ [] := by
  intro l hl
  unfold outboxLines at hl
  simp only [List.mem_cons, List.not_mem_nil, or_false] at hl
  rcases hl with rfl | rfl | rfl | rfl | rfl | rfl
  · have hversion : IsText (ascii " HTTP/1.1") := forall_of_all (by decide)
    exact ⟨isText_append (isText_append (forall_of_all (by decide)) htoken) hversion, nofun⟩
  · exact ⟨isText_append (forall_of_all (by decide)) url.hostname_text, nofun⟩
  · exact ⟨forall_of_all (by decide), nofun⟩
  · exact ⟨forall_of_all (by decide), nofun⟩
  · exact ⟨isText_append (forall_of_all (by decide)) (decimal_text _), nofun⟩
  · exact ⟨forall_of_all (by decide), nofun⟩

/-- The generic SMS route declares the number of code units. -/
theorem outboxLines_declare (host token payload : JsString) :
    declaredLength ((outboxLines host token payload).map textEncode) = some payload.length := by
  have hhost := host_declares_nothing host
  have he2e : headerValue "Content-Length" (textEncode (ascii "X-GAFAM-E2E: 1")) = none := by decide
  have htype : headerValue "Content-Length" (textEncode (ascii "Content-Type: application/json")) =
      none := by
    decide
  have hlength := contentLength_declares payload.length
  cases hvalue : headerValue "Content-Length"
      (textEncode (ascii "Content-Length: " ++ decimal payload.length)) with
  | none =>
    rw [hvalue] at hlength
    cases hlength
  | some value =>
    rw [hvalue] at hlength
    unfold declaredLength outboxLines
    simp only [List.map_cons, List.tail_cons, List.findSome?_cons, hhost, he2e, htype, hvalue]
    exact hlength

/-- The request of the generic SMS route is read as it was sent exactly if its body is ASCII. -/
theorem post_readsWhole_iff {url : Url} {token payload : JsString} {bytes : GoString}
    (h : postBytes url token payload = some bytes) :
    ReadsWhole bytes (textEncode payload) ↔ ∀ u ∈ payload, IsAscii u := by
  obtain ⟨token', htoken, rfl⟩ := Option.map_eq_some_iff.1 h
  obtain ⟨hle, hiff⟩ := length_textEncode payload
  have hdeclared := outboxLines_declare url.hostname token' payload
  have hread := readRequest_join (outboxLines_text url payload (encodeURIComponent_text htoken)) payload hdeclared hle
  rw [← hiff]
  constructor
  · rintro ⟨head, hlen, hwhole⟩
    rw [hread] at hwhole
    obtain ⟨rfl, -⟩ := Received.mk.inj (Option.some.inj hwhole)
    rw [hdeclared] at hlen
    exact (Option.some.inj hlen).symm
  · intro hlen
    rw [← hlen] at hdeclared
    refine ⟨(outboxLines url.hostname token' payload).map textEncode, hdeclared, ?_⟩
    rw [hread, ← hlen, List.take_length, List.drop_length]

/-- The relay at an address without a port. -/
def plainUrl : Url := ⟨ascii "10.0.0.1", [], forall_of_all (by decide)⟩

theorem post_readsWhole_hi : ∃ bytes, postBytes plainUrl (ascii "t") (ascii "hi") = some bytes ∧
    (ReadsWhole bytes (textEncode (ascii "hi")) ↔ ∀ u ∈ ascii (str "hi"), IsAscii u) := by
  have hbytes : postBytes plainUrl (ascii "t") (ascii "hi") = some (textEncode (join newline
      (outboxLines plainUrl.hostname (ascii "t") (ascii "hi") ++ [[], ascii "hi"]))) := rfl
  exact ⟨_, hbytes, post_readsWhole_iff hbytes⟩

/-- One accented letter: the server reads half of it. -/
theorem post_readsHalf : ¬ ∀ url token payload bytes, postBytes url token payload = some bytes →
    ReadsWhole bytes (textEncode payload) := by
  intro h
  obtain ⟨head, -, hread⟩ := h plainUrl (ascii "t") [0xE9] (textEncode (join newline
    (outboxLines plainUrl.hostname (ascii "t") [0xE9] ++ [[], [0xE9]]))) rfl
  have hhalf : (readRequest (textEncode (join newline
      (outboxLines plainUrl.hostname (ascii "t") [0xE9] ++ [[], [0xE9]])))).map (fun r => r.next) =
      some [0xA9] := by
    decide
  rw [hread] at hhalf
  cases hhalf

/-! ## The requests of `vpcRequest` -/

theorem given_some {body : JsString} (hbody : body ≠ []) : given (some body) = some body := by
  unfold given
  simp [hbody]

theorem requestText_eq {body : JsString} (hbody : body ≠ []) (host token method path : JsString)
    (e2e : Bool) :
    requestText host token method path (some body) e2e =
      join newline (requestLines host token method path (some body) e2e ++ [[], body]) := by
  have hgiven := given_some hbody
  unfold requestText
  rw [hgiven, join_lines, join_lines]
  simp

/-- `vpcRequest` counts the bytes, so that its requests are read whole whatever the body is. -/
theorem request_readsWhole {host token method path body : JsString} (hbody : body ≠ [])
    (hhost : IsText host) (htoken : IsText token) (hmethod : IsText method) (hpath : IsText path)
    (e2e : Bool) :
    ReadsWhole (textEncode (requestText host token method path (some body) e2e)) (textEncode body) := by
  have hgiven := given_some hbody
  have hlines : ∀ l ∈ requestLines host token method path (some body) e2e, IsText l ∧ l ≠ [] := by
    intro l hl
    unfold requestLines at hl
    rw [hgiven] at hl
    simp only [List.mem_append, List.mem_cons, List.not_mem_nil, or_false] at hl
    rcases hl with ((rfl | rfl | rfl | rfl) | hl) | rfl | rfl
    · have hspace : IsText (ascii " ") := forall_of_all (by decide)
      have hversion : IsText (ascii " HTTP/1.1") := forall_of_all (by decide)
      refine ⟨isText_append (isText_append (isText_append hmethod hspace) hpath) hversion, ?_⟩
      simp [ascii, str]
    · exact ⟨isText_append (forall_of_all (by decide)) hhost, nofun⟩
    · exact ⟨isText_append (forall_of_all (by decide)) htoken, nofun⟩
    · exact ⟨forall_of_all (by decide), nofun⟩
    · cases e2e with
      | false => cases hl
      | true =>
        obtain rfl := List.mem_singleton.1 hl
        exact ⟨forall_of_all (by decide), nofun⟩
    · exact ⟨forall_of_all (by decide), nofun⟩
    · exact ⟨isText_append (forall_of_all (by decide)) (decimal_text _), nofun⟩
  have hdeclared : declaredLength
      ((requestLines host token method path (some body) e2e).map textEncode) =
      some (textEncode body).length := by
    have hother := host_declares_nothing host
    have hauth : headerValue "Content-Length" (textEncode (ascii "Authorization: Bearer " ++ token)) =
        none := by
      have := textEncode_header (str "Authorization") (forall_of_all (by decide)) (ascii "Bearer " ++ token)
      rw [show textEncode (ascii "Authorization: Bearer " ++ token) =
        str "Authorization" ++ 0x3A :: 0x20 :: textEncode (ascii "Bearer " ++ token) from this]
      exact headerValue_other (forall_of_all (by decide)) (by decide)
    have hclose : headerValue "Content-Length" (textEncode (ascii "Connection: close")) = none := by
      decide
    have htype : headerValue "Content-Length" (textEncode (ascii "Content-Type: application/json")) =
        none := by
      decide
    have hlength := contentLength_declares (textEncode body).length
    cases hvalue : headerValue "Content-Length"
        (textEncode (ascii "Content-Length: " ++ decimal (textEncode body).length)) with
    | none =>
      rw [hvalue] at hlength
      cases hlength
    | some value =>
      rw [hvalue] at hlength
      unfold declaredLength requestLines
      rw [hgiven]
      cases e2e
      · simp only [List.map_append, List.map_cons, List.cons_append, List.tail_cons,
          List.findSome?_cons, List.findSome?_append, hother, hauth, hclose, htype, hvalue]
        exact hlength
      · simp only [List.map_append, List.map_cons, List.cons_append, List.tail_cons,
          List.findSome?_cons, List.findSome?_append, hother, hauth, hclose, htype, hvalue]
        exact hlength
  rw [requestText_eq hbody]
  refine ⟨_, hdeclared, ?_⟩
  rw [readRequest_join hlines body hdeclared (Nat.le_refl _), List.take_length, List.drop_length]

theorem request_readsWhole_quote :
    ReadsWhole (textEncode (requestText (ascii "h") (ascii "t") (ascii "POST") (ascii "/") (some [0x2019]) false))
      (textEncode [0x2019]) :=
  request_readsWhole (by decide) (forall_of_all (by decide)) (forall_of_all (by decide))
    (forall_of_all (by decide)) (forall_of_all (by decide)) false

end Gafam.Frontend
