import Gafam.Go.Net
import Gafam.Go.Proofs.TextProofs

/-!
# Addresses in lower case

What `net.ParseIP` accepts consists of hexadecimal digits, dots and colons, and the case of the digits
does not matter.
-/

namespace Gafam.Go

/-! ## Bytes -/

set_option maxRecDepth 8000 in
theorem hexValue_lower (c : UInt8) : hexValue (lowerByte c) = hexValue c :=
  forall_byte (p := fun c => hexValue (lowerByte c) = hexValue c) (by decide) c

theorem isHexDigit_lower (c : UInt8) : isHexDigit (lowerByte c) = isHexDigit c := by
  unfold isHexDigit
  rw [hexValue_lower]

set_option maxRecDepth 8000 in
theorem lower_digit {c : UInt8} (h : isDigit c = true) : lowerByte c = c :=
  forall_byte (p := fun c => isDigit c = true → lowerByte c = c) (by decide) c h

set_option maxRecDepth 8000 in
theorem isDigit_lower (c : UInt8) : isDigit (lowerByte c) = isDigit c :=
  forall_byte (p := fun c => isDigit (lowerByte c) = isDigit c) (by decide) c

set_option maxRecDepth 8000 in
theorem lower_eq_mark {c : UInt8} : (lowerByte c = 0x2E ↔ c = 0x2E) ∧ (lowerByte c = 0x3A ↔ c = 0x3A) :=
  forall_byte (p := fun c => (lowerByte c = 0x2E ↔ c = 0x2E) ∧ (lowerByte c = 0x3A ↔ c = 0x3A))
    (by decide) c

/-- A byte of a textual address. -/
def isAddrByte (c : UInt8) : Bool := isHexDigit c || c == 0x2E || c == 0x3A

set_option maxRecDepth 8000 in
theorem addrByte_ascii {c : UInt8} (h : isAddrByte c = true) :
    c.toNat < 0x80 ∧ encodeRune (toLowerRune c.toNat) = [lowerByte c] :=
  forall_byte (p := fun c => isAddrByte c = true →
    c.toNat < 0x80 ∧ encodeRune (toLowerRune c.toNat) = [lowerByte c]) (by decide) c h

/-- Lower case, byte by byte. -/
theorem toLower_addr {s : GoString} (h : ∀ c ∈ s, isAddrByte c = true) :
    toLower s = s.map lowerByte := by
  induction s with
  | nil => rfl
  | cons c s ih =>
    obtain ⟨hascii, hlower⟩ := addrByte_ascii (h c (List.mem_cons_self ..))
    rw [toLower_cons hascii, hlower, ih fun d hd => h d (List.mem_cons_of_mem _ hd)]
    rfl

/-! ## IPv4 -/

theorem splitByte_ne_nil (sep : UInt8) (s : GoString) : splitByte sep s ≠ [] := by
  cases s with
  | nil => exact List.cons_ne_nil _ _
  | cons c s =>
    unfold splitByte
    split_ifs
    · exact List.cons_ne_nil _ _
    · cases hs : splitByte sep s with
      | nil => exact absurd hs (splitByte_ne_nil sep s)
      | cons p ps => exact List.cons_ne_nil _ _

theorem splitByte_cons_ne {sep c : UInt8} (hc : c ≠ sep) {s p : GoString} {ps : List GoString}
    (hs : splitByte sep s = p :: ps) : splitByte sep (c :: s) = (c :: p) :: ps := by
  unfold splitByte
  rw [if_neg hc, hs]
  rfl

/-- Every byte of a string is a separator or stands in one of the parts. -/
theorem mem_splitByte {sep b : UInt8} {s : GoString} (h : b ∈ s) :
    b = sep ∨ ∃ p ∈ splitByte sep s, b ∈ p := by
  induction s with
  | nil => exact absurd h List.not_mem_nil
  | cons c s ih =>
    by_cases hc : c = sep
    · rcases List.mem_cons.1 h with rfl | h
      · exact .inl hc
      · refine (ih h).imp_right fun ⟨p, hp, hb⟩ => ⟨p, ?_, hb⟩
        unfold splitByte
        rw [if_pos hc]
        exact List.mem_cons_of_mem _ hp
    · obtain ⟨q, ps, hs⟩ := List.exists_cons_of_ne_nil (splitByte_ne_nil sep s)
      rw [splitByte_cons_ne hc hs]
      rcases List.mem_cons.1 h with rfl | h
      · exact .inr ⟨b :: q, List.mem_cons_self .., List.mem_cons_self ..⟩
      · rcases ih h with hsep | ⟨p, hp, hb⟩
        · exact .inl hsep
        · rw [hs] at hp
          rcases List.mem_cons.1 hp with rfl | hp
          · exact .inr ⟨c :: p, List.mem_cons_self .., List.mem_cons_of_mem _ hb⟩
          · exact .inr ⟨p, List.mem_cons_of_mem _ hp, hb⟩

theorem splitByte_lower (s : GoString) :
    splitByte 0x2E (s.map lowerByte) = (splitByte 0x2E s).map (List.map lowerByte) := by
  induction s with
  | nil => rfl
  | cons c s ih =>
    obtain ⟨p, ps, hs⟩ := List.exists_cons_of_ne_nil (splitByte_ne_nil 0x2E s)
    rw [List.map_cons]
    by_cases hc : c = 0x2E
    · rw [hc]
      show [] :: splitByte 0x2E (s.map lowerByte) = _
      rw [ih]
      rfl
    · rw [splitByte_cons_ne hc hs]
      rw [hs] at ih
      exact splitByte_cons_ne (fun h => hc (lower_eq_mark.1.1 h)) ih

theorem parseOctet_digits {p : GoString} {n : UInt8} (h : parseOctet p = some n) :
    p.all isDigit = true := by
  unfold parseOctet at h
  split_ifs at h with hempty
  all_goals
    rw [Bool.or_eq_true, not_or] at hempty
    simpa using hempty.2

theorem parseOctet_lower (p : GoString) : parseOctet (p.map lowerByte) = parseOctet p := by
  by_cases hp : p.all isDigit = true
  · have hsame : p.map lowerByte = p.map id :=
      List.map_congr_left fun c hc => lower_digit (List.all_eq_true.1 hp c hc)
    rw [hsame, List.map_id]
  · have hlower : (p.map lowerByte).all isDigit = p.all isDigit := by
      rw [List.all_map]
      exact congrArg p.all (funext isDigit_lower)
    have hno : p.all isDigit = false := Bool.eq_false_of_not_eq_true hp
    unfold parseOctet
    rw [hlower, hno]
    simp

theorem parseIPv4_lower (s : GoString) : parseIPv4 (s.map lowerByte) = parseIPv4 s := by
  unfold parseIPv4
  rw [splitByte_lower]
  rcases splitByte 0x2E s with _ | ⟨a, _ | ⟨b, _ | ⟨c, _ | ⟨d, _ | ⟨e, l⟩⟩⟩⟩⟩
  · rfl
  · rfl
  · rfl
  · rfl
  · simp only [List.map_cons, List.map_nil, parseOctet_lower]
  · rfl

set_option maxRecDepth 8000 in
theorem parseIPv4_bytes {s : GoString} {bytes : List UInt8} (h : parseIPv4 s = some bytes) :
    ∀ c ∈ s, isAddrByte c = true := by
  intro c hc
  have hdigit : isDigit c = true → isAddrByte c = true :=
    forall_byte (p := fun c => isDigit c = true → isAddrByte c = true) (by decide) c
  rcases @mem_splitByte 0x2E _ _ hc with rfl | ⟨p, hp, hcp⟩
  · rfl
  · have hall : ∀ p ∈ splitByte 0x2E s, p.all isDigit = true := by
      unfold parseIPv4 at h
      split at h
      · next a b c d hs =>
        obtain ⟨a', ha, h⟩ := Option.bind_eq_some_iff.1 h
        obtain ⟨b', hb, h⟩ := Option.bind_eq_some_iff.1 h
        obtain ⟨c', hc, h⟩ := Option.bind_eq_some_iff.1 h
        obtain ⟨d', hd, -⟩ := Option.bind_eq_some_iff.1 h
        rw [hs]
        intro p hp
        simp only [List.mem_cons, List.not_mem_nil, or_false] at hp
        rcases hp with rfl | rfl | rfl | rfl
        · exact parseOctet_digits ha
        · exact parseOctet_digits hb
        · exact parseOctet_digits hc
        · exact parseOctet_digits hd
      · cases h
    exact hdigit (List.all_eq_true.1 (hall p hp) c hcp)

/-! ## IPv6 -/

theorem takeWhile_lower (s : GoString) :
    (s.map lowerByte).takeWhile isHexDigit = (s.takeWhile isHexDigit).map lowerByte := by
  rw [List.takeWhile_map]
  exact congrArg (fun p => (s.takeWhile p).map lowerByte) (funext isHexDigit_lower)

theorem dropWhile_lower (s : GoString) :
    (s.map lowerByte).dropWhile isHexDigit = (s.dropWhile isHexDigit).map lowerByte := by
  rw [List.dropWhile_map]
  exact congrArg (fun p => (s.dropWhile p).map lowerByte) (funext isHexDigit_lower)

theorem hexNumber_lower (s : GoString) : hexNumber (s.map lowerByte) = hexNumber s := by
  unfold hexNumber
  rw [List.foldl_map]
  exact congrArg (fun f => s.foldl f 0) (funext fun n => funext fun c => by rw [hexValue_lower])

theorem head_lower_mark (s : GoString) :
    ((s.map lowerByte).head? = some 0x2E ↔ s.head? = some 0x2E) ∧
      ((s.map lowerByte).head? = some 0x3A ↔ s.head? = some 0x3A) := by
  cases s with
  | nil => exact ⟨Iff.rfl, Iff.rfl⟩
  | cons c s =>
    simp only [List.map_cons, List.head?_cons, Option.some_inj]
    exact lower_eq_mark

theorem map_lower_nil {s : GoString} : s.map lowerByte = [] ↔ s = [] := List.map_eq_nil_iff

theorem parseGroups_lower (n : Nat) (s : GoString) (ip : List UInt8) (ellipsis : Option Nat) :
    parseGroups n (s.map lowerByte) ip ellipsis =
      (parseGroups n s ip ellipsis).map fun r => (r.1.map lowerByte, r.2) := by
  induction n generalizing s ip ellipsis with
  | zero => rfl
  | succ n ih =>
    unfold parseGroups
    simp only [takeWhile_lower, dropWhile_lower, map_lower_nil, List.length_map,
      (head_lower_mark _).1, hexNumber_lower, parseIPv4_lower]
    cases hrest : s.dropWhile isHexDigit with
    | nil =>
      simp only [List.map_nil, List.head?_nil, reduceCtorEq, if_false]
      split_ifs
      · rfl
      · rfl
    | cons c rest =>
      simp only [List.map_cons, List.head?_cons, Option.some_inj, lower_eq_mark.2, map_lower_nil,
        (head_lower_mark _).2, ← List.map_tail, ne_eq]
      split_ifs with hdigits hdot hplace hcolon htwo hsome hlast
      · rfl
      · rfl
      · cases parseIPv4 s <;> rfl
      · rfl
      · rfl
      · rfl
      · exact ih _ _ _
      · exact ih _ _ _

/-- What the loop accepts to its end consists of bytes of an address. -/
theorem parseGroups_bytes {n : Nat} {s : GoString} {ip ip' : List UInt8} {ellipsis ellipsis' : Option Nat}
    (h : parseGroups n s ip ellipsis = some ([], ip', ellipsis')) :
    ∀ c ∈ s, isAddrByte c = true := by
  induction n generalizing s ip ellipsis with
  | zero =>
    unfold parseGroups at h
    have hs : s = [] := congrArg Prod.fst (Option.some_inj.1 h)
    rw [hs]
    exact fun c hc => absurd hc List.not_mem_nil
  | succ n ih =>
    have hdigits : ∀ c ∈ s.takeWhile isHexDigit, isAddrByte c = true := by
      intro c hc
      unfold isAddrByte
      rw [List.all_eq_true.1 List.all_takeWhile c hc]
      rfl
    have hsplit : s = s.takeWhile isHexDigit ++ s.dropWhile isHexDigit :=
      (List.takeWhile_append_dropWhile).symm
    have htail : ∀ rest, s.dropWhile isHexDigit = 0x3A :: rest →
        (∀ c ∈ rest, isAddrByte c = true) → ∀ c ∈ s, isAddrByte c = true := by
      intro rest hrest hall c hc
      rw [hsplit, hrest] at hc
      rcases List.mem_append.1 hc with hc | hc
      · exact hdigits c hc
      · rcases List.mem_cons.1 hc with rfl | hc
        · rfl
        · exact hall c hc
    unfold parseGroups at h
    cases hrest : s.dropWhile isHexDigit with
    | nil =>
      rw [hrest, List.append_nil] at hsplit
      rw [hsplit]
      exact hdigits
    | cons c rest =>
      simp only [hrest, List.head?_cons, Option.some_inj] at h
      split_ifs at h with hno hdot hplace hcolon htwo hsome hlast
      · -- an IPv4 address at the end
        obtain ⟨four, hfour, -⟩ := Option.map_eq_some_iff.1 h
        exact parseIPv4_bytes hfour
      all_goals
        obtain ⟨rfl, -⟩ := not_or.1 hcolon |>.imp_left not_not.1
        refine htail rest hrest ?_
      · cases rest with
        | nil => exact fun c hc => absurd hc List.not_mem_nil
        | cons d rest =>
          obtain rfl : rest = [] := hlast
          intro c hc
          rw [List.mem_singleton.1 hc, Option.some_inj.1 htwo]
          rfl
      · cases rest with
        | nil => exact fun c hc => absurd hc List.not_mem_nil
        | cons d rest =>
          intro c hc
          rcases List.mem_cons.1 hc with rfl | hc
          · rw [Option.some_inj.1 htwo]
            rfl
          · exact ih h c hc
      · exact ih h

set_option maxRecDepth 8000 in
theorem colon_lower (c : UInt8) : ((0x3A : UInt8) == lowerByte c) = (0x3A == c) :=
  forall_byte (p := fun c => ((0x3A : UInt8) == lowerByte c) = (0x3A == c)) (by decide) c

theorem hasPrefix_ellipsis_lower (s : GoString) :
    hasPrefix (s.map lowerByte) "::" = hasPrefix s "::" := by
  show List.isPrefixOf [0x3A, 0x3A] (s.map lowerByte) = List.isPrefixOf [0x3A, 0x3A] s
  rcases s with _ | ⟨a, _ | ⟨b, s⟩⟩
  · rfl
  · simp only [List.map_cons, List.map_nil, List.isPrefixOf, colon_lower]
  · simp only [List.map_cons, List.isPrefixOf, colon_lower]

theorem groupsEnd_lower (s : GoString) (ellipsis : Option Nat) :
    (parseGroups 8 (s.map lowerByte) [] ellipsis).bind groupsEnd =
      (parseGroups 8 s [] ellipsis).bind groupsEnd := by
  rw [parseGroups_lower]
  rcases parseGroups 8 s [] ellipsis with _ | ⟨_ | ⟨c, rest⟩, ip, ellipsis'⟩
  · rfl
  · rfl
  · rfl

theorem groupsEnd_bytes {s : GoString} {ellipsis : Option Nat} {bytes : List UInt8}
    (h : (parseGroups 8 s [] ellipsis).bind groupsEnd = some bytes) :
    ∀ c ∈ s, isAddrByte c = true := by
  obtain ⟨⟨rest, ip, ellipsis'⟩, hgroups, hend⟩ := Option.bind_eq_some_iff.1 h
  cases rest with
  | nil => exact parseGroups_bytes hgroups
  | cons c rest => cases hend

theorem parseIPv6_lower (s : GoString) : parseIPv6 (s.map lowerByte) = parseIPv6 s := by
  unfold parseIPv6
  rw [hasPrefix_ellipsis_lower, ← List.map_drop, groupsEnd_lower, groupsEnd_lower]
  simp only [map_lower_nil]

theorem parseIPv6_bytes {s : GoString} {bytes : List UInt8} (h : parseIPv6 s = some bytes) :
    ∀ c ∈ s, isAddrByte c = true := by
  unfold parseIPv6 at h
  by_cases hpre : hasPrefix s "::" = true
  · obtain ⟨t, rfl⟩ : ∃ t, s = 0x3A :: 0x3A :: t := by
      obtain ⟨t, ht⟩ := List.isPrefixOf_iff_prefix.1 hpre
      exact ⟨t, ht.symm⟩
    rw [if_pos hpre] at h
    have ht : ∀ c ∈ t, isAddrByte c = true := by
      split_ifs at h with hnil
      · obtain rfl : t = [] := hnil
        exact fun c hc => absurd hc List.not_mem_nil
      · exact groupsEnd_bytes h
    intro c hc
    rcases List.mem_cons.1 hc with rfl | hc
    · rfl
    · rcases List.mem_cons.1 hc with rfl | hc
      · rfl
      · exact ht c hc
  · rw [if_neg hpre] at h
    exact groupsEnd_bytes h

/-! ## Addresses -/

theorem find_mark_lower (s : GoString) :
    (s.map lowerByte).find? (fun c => c == 0x2E || c == 0x3A) =
      s.find? fun c => c == 0x2E || c == 0x3A := by
  induction s with
  | nil => rfl
  | cons c s ih =>
    by_cases hc : (c == 0x2E || c == 0x3A) = true
    · have hlower : lowerByte c = c := by
        rw [Bool.or_eq_true, beq_iff_eq, beq_iff_eq] at hc
        rcases hc with rfl | rfl <;> rfl
      rw [List.map_cons, hlower, List.find?_cons, List.find?_cons, hc]
    · have hno : ¬(lowerByte c == 0x2E || lowerByte c == 0x3A) = true := by
        rw [Bool.or_eq_true, beq_iff_eq, beq_iff_eq] at hc ⊢
        rwa [lower_eq_mark.1, lower_eq_mark.2]
      rw [List.map_cons, List.find?_cons, List.find?_cons, Bool.eq_false_of_not_eq_true hno,
        Bool.eq_false_of_not_eq_true hc]
      exact ih

theorem parseAddr_lower (s : GoString) : parseAddr (s.map lowerByte) = parseAddr s := by
  unfold parseAddr
  rw [find_mark_lower, parseIPv4_lower, parseIPv6_lower]

theorem parseAddr_bytes {s : GoString} {bytes : List UInt8} (h : parseAddr s = some bytes) :
    ∀ c ∈ s, isAddrByte c = true := by
  unfold parseAddr at h
  split at h
  · split_ifs at h
    · exact parseIPv4_bytes h
    · exact parseIPv6_bytes h
  · cases h

/-- An address keeps its meaning in lower case. -/
theorem parseIP_toLower {s : GoString} {ip : IP} (h : parseIP s = some ip) :
    parseIP (toLower s) = some ip := by
  obtain ⟨bytes, hbytes, -⟩ := Option.bind_eq_some_iff.1 h
  rw [toLower_addr (parseAddr_bytes hbytes)]
  unfold parseIP
  rw [parseAddr_lower]
  exact h

end Gafam.Go
