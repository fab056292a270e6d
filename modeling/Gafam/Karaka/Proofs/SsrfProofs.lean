import Gafam.Karaka.Ssrf
import Gafam.Go.Proofs.NetProofs

/-!
# Which internal addresses the guard lets through

The table covers every internal address but the multicast ones and `::`, so that the guard keeps internal
addresses out exactly where none of these occurs.
-/

namespace Gafam.Karaka

open Gafam.Go

/-! ## The table -/

/-- The networks of IPv4 in the table. -/
def fourNets : List IPNet :=
  [⟨[127, 0, 0, 0], [255, 0, 0, 0]⟩, ⟨[10, 0, 0, 0], [255, 0, 0, 0]⟩,
    ⟨[172, 16, 0, 0], [255, 240, 0, 0]⟩, ⟨[192, 168, 0, 0], [255, 255, 0, 0]⟩,
    ⟨[169, 254, 0, 0], [255, 255, 0, 0]⟩, ⟨[100, 64, 0, 0], [255, 192, 0, 0]⟩,
    ⟨[0, 0, 0, 0], [255, 0, 0, 0]⟩]

/-- The networks of IPv6 in the table. -/
def sixNets : List IPNet :=
  [⟨List.replicate 15 0 ++ [1], List.replicate 16 255⟩,
    ⟨0xFC :: List.replicate 15 0, 0xFE :: List.replicate 15 0⟩,
    ⟨0xFE :: 0x80 :: List.replicate 14 0, 0xFF :: 0xC0 :: List.replicate 14 0⟩]

theorem parsedBlockedCIDRs_eq : parsedBlockedCIDRs = fourNets ++ sixNets := by
  decide

set_option maxRecDepth 8000 in
theorem and_255 (c : UInt8) : c &&& 255 = c :=
  forall_byte (p := fun c => c &&& 255 = c) (by decide) c

theorem masked_cons (m c : UInt8) (mask bytes : List UInt8) :
    masked (m :: mask) (c :: bytes) = (c &&& m) :: masked mask bytes := rfl

theorem masked_ones (bytes : List UInt8) : masked (List.replicate bytes.length 255) bytes = bytes := by
  induction bytes with
  | nil => rfl
  | cons c bytes ih =>
    rw [List.length_cons, List.replicate_succ, masked_cons, and_255, ih]

theorem masked_zeros (bytes : List UInt8) :
    masked (List.replicate bytes.length 0) bytes = List.replicate bytes.length 0 := by
  induction bytes with
  | nil => rfl
  | cons c bytes ih =>
    rw [List.length_cons, List.replicate_succ, masked_cons, UInt8.and_zero, ih]

theorem contains_iff {n : IPNet} {ip : IP} : n.contains ip = true ↔
    ip.short.length = n.ip.length ∧ masked n.mask ip.short = masked n.mask n.ip := by
  unfold IPNet.contains
  rw [Bool.and_eq_true, beq_iff_eq, beq_iff_eq]
  exact and_congr_right' eq_comm

/-- A network holds no address of the other length. -/
theorem not_contains {n : IPNet} {ip : IP} (h : ip.short.length ≠ n.ip.length) :
    n.contains ip = false :=
  Bool.eq_false_of_not_eq_true fun hc => h (contains_iff.1 hc).1

theorem any_not_contains {l : List IPNet} {k : Nat} {ip : IP} (hl : ∀ n ∈ l, n.ip.length = k)
    (h : ip.short.length ≠ k) : (l.any fun n => n.contains ip) = false := by
  rw [List.any_eq_false]
  intro n hn
  rw [not_contains (hl n hn ▸ h)]
  exact Bool.false_ne_true

/-- A network of IPv4 of at most sixteen bits. -/
theorem contains_four {ip : IP} {a b c d : UInt8} (h : ip.short = [a, b, c, d]) (p q m n : UInt8) :
    (⟨[p, q, 0, 0], [m, n, 0, 0]⟩ : IPNet).contains ip = true ↔
      a &&& m = p &&& m ∧ b &&& n = q &&& n := by
  rw [contains_iff, h]
  simp only [masked_cons, UInt8.and_zero, List.cons.injEq, List.length_cons, and_true, true_and]

/-- The table on an address of IPv4. -/
theorem ipBlocked_four {ip : IP} {a b c d : UInt8} (h : ip.short = [a, b, c, d]) :
    ipBlocked ip = true ↔ a = 127 ∨ a = 10 ∨ (a = 172 ∧ b &&& 240 = 16) ∨ (a = 192 ∧ b = 168) ∨
      (a = 169 ∧ b = 254) ∨ (a = 100 ∧ b &&& 192 = 64) ∨ a = 0 := by
  have hsix : (sixNets.any fun n => n.contains ip) = false :=
    any_not_contains (k := 16) (forall_of_all (by decide)) (by rw [h]; exact of_decide_eq_true rfl)
  unfold ipBlocked
  rw [parsedBlockedCIDRs_eq, List.any_append, hsix, Bool.or_false]
  unfold fourNets
  simp only [List.any_cons, List.any_nil, Bool.or_false, Bool.or_eq_true, contains_four h, and_255,
    UInt8.and_zero, and_true]
  exact Iff.rfl

/-- The table on an address of IPv6. -/
theorem ipBlocked_sixteen {ip : IP} {a b : UInt8} {rest : List UInt8} (h : ip.short = a :: b :: rest)
    (hlen : rest.length = 14) :
    ipBlocked ip = true ↔ ip.short = List.replicate 15 0 ++ [1] ∨ a &&& 0xFE = 0xFC ∨
      (a = 0xFE ∧ b &&& 0xC0 = 0x80) := by
  have hshort : ip.short.length = 16 := by rw [h, List.length_cons, List.length_cons, hlen]
  have hfour : (fourNets.any fun n => n.contains ip) = false :=
    any_not_contains (k := 4) (forall_of_all (by decide)) (by rw [hshort]; decide)
  have hones := masked_ones ip.short
  have hzeros := masked_zeros rest
  have hzeros' := masked_zeros (b :: rest)
  rw [hshort] at hones
  rw [hlen] at hzeros
  rw [List.length_cons, hlen] at hzeros'
  have hloopback : (⟨List.replicate 15 0 ++ [1], List.replicate 16 255⟩ : IPNet).contains ip = true ↔
      ip.short = List.replicate 15 0 ++ [1] := by
    rw [contains_iff, hones]
    exact and_iff_right hshort
  have hlocal : (⟨0xFC :: List.replicate 15 0, 0xFE :: List.replicate 15 0⟩ : IPNet).contains ip = true ↔
      a &&& 0xFE = 0xFC := by
    have hnet : masked (0xFE :: List.replicate 15 0) (0xFC :: List.replicate 15 0) =
        0xFC :: List.replicate 15 0 := by decide
    refine (contains_iff.trans (and_iff_right hshort)).trans ?_
    rw [h, masked_cons, hzeros', hnet, List.cons.injEq]
    exact and_iff_left rfl
  have hlink : (⟨0xFE :: 0x80 :: List.replicate 14 0, 0xFF :: 0xC0 :: List.replicate 14 0⟩
      : IPNet).contains ip = true ↔ a = 0xFE ∧ b &&& 0xC0 = 0x80 := by
    have hnet : masked (0xFF :: 0xC0 :: List.replicate 14 0) (0xFE :: 0x80 :: List.replicate 14 0) =
        0xFE :: 0x80 :: List.replicate 14 0 := by decide
    refine (contains_iff.trans (and_iff_right hshort)).trans ?_
    rw [h, masked_cons, masked_cons, hzeros, and_255, hnet, List.cons.injEq, List.cons.injEq]
    exact and_congr_right' (and_iff_left rfl)
  unfold ipBlocked
  rw [parsedBlockedCIDRs_eq, List.any_append, hfour, Bool.false_or]
  unfold sixNets
  simp only [List.any_cons, List.any_nil, Bool.or_false, Bool.or_eq_true, hloopback, hlocal, hlink]

/-! ## Internal addresses -/

theorem to4_length {bytes four : List UInt8} (hlen : bytes.length = 4 ∨ bytes.length = 16)
    (h : to4 bytes = some four) : four.length = 4 := by
  unfold to4 at h
  split_ifs at h with hfour hpre
  · rwa [← Option.some_inj.1 h]
  · rw [← Option.some_inj.1 h, List.length_drop]
    omega

theorem short_cases (ip : IP) : (∃ a b c d, ip.short = [a, b, c, d]) ∨
    ∃ a b c d e rest, ip.short = a :: b :: c :: d :: e :: rest ∧ rest.length = 11 := by
  have hlen : ip.short.length = 4 ∨ ip.short.length = 16 := by
    unfold IP.short
    cases hfour : to4 ip.bytes with
    | some four => exact .inl (to4_length ip.size hfour)
    | none => exact ip.size
  rcases hlen with hlen | hlen
  · obtain ⟨a, b, c, d, hs⟩ := List.length_eq_four.1 hlen
    exact .inl ⟨a, b, c, d, hs⟩
  · obtain ⟨front, rest, hs, hfront⟩ : ∃ front rest, ip.short = front ++ rest ∧ front.length = 5 :=
      ⟨ip.short.take 5, ip.short.drop 5, (List.take_append_drop 5 _).symm, by
        rw [List.length_take]
        omega⟩
    obtain ⟨a, b, c, d, e, rfl⟩ : ∃ a b c d e, front = [a, b, c, d, e] := by
      obtain ⟨a, tail, rfl⟩ := List.exists_cons_of_length_eq_add_one hfront
      obtain ⟨b, c, d, e, rfl⟩ := List.length_eq_four.1 (Nat.succ.inj hfront)
      exact ⟨a, b, c, d, e, rfl⟩
    refine .inr ⟨a, b, c, d, e, rest, hs, ?_⟩
    rw [hs, List.length_append, hfront] at hlen
    omega

theorem internal_of_missed {ip : IP} (h : Missed ip) : Internal ip := by
  rcases h with h | h
  · exact .inr (.inr (.inr (.inr h)))
  · refine .inr (.inl ?_)
    unfold IP.isUnspecified
    rw [h]
    rfl

theorem internal_four {ip : IP} {a b c d : UInt8} (h : ip.short = [a, b, c, d]) :
    Internal ip ↔ a = 127 ∨ (a = 0 ∧ b = 0 ∧ c = 0 ∧ d = 0) ∨
      (a = 10 ∨ (a = 172 ∧ b &&& 240 = 16) ∨ (a = 192 ∧ b = 168)) ∨ (a = 169 ∧ b = 254) ∨
      a &&& 240 = 224 := by
  unfold Internal IP.isLoopback IP.isUnspecified IP.isPrivate IP.isLinkLocalUnicast IP.isMulticast
  simp [h, or_assoc]

theorem missed_four {ip : IP} {a b c d : UInt8} (h : ip.short = [a, b, c, d]) :
    Missed ip ↔ a &&& 240 = 224 := by
  unfold Missed IP.isMulticast
  simp [h]

theorem internal_sixteen {ip : IP} {a b c d e : UInt8} {rest : List UInt8}
    (h : ip.short = a :: b :: c :: d :: e :: rest) :
    Internal ip ↔ ip.short = List.replicate 15 0 ++ [1] ∨ ip.short = List.replicate 16 0 ∨
      a &&& 0xFE = 0xFC ∨ (a = 0xFE ∧ b &&& 0xC0 = 0x80) ∨ a = 0xFF := by
  unfold Internal IP.isLoopback IP.isUnspecified IP.isPrivate IP.isLinkLocalUnicast IP.isMulticast
  simp [h]

theorem missed_sixteen {ip : IP} {a b c d e : UInt8} {rest : List UInt8}
    (h : ip.short = a :: b :: c :: d :: e :: rest) :
    Missed ip ↔ a = 0xFF ∨ ip.short = List.replicate 16 0 := by
  unfold Missed IP.isMulticast
  simp [h]

/-- The table leaves out `Missed` addresses and no other internal ones. -/
theorem blocked_iff_of_internal {ip : IP} (h : Internal ip) : ipBlocked ip = true ↔ ¬Missed ip := by
  rcases short_cases ip with ⟨a, b, c, d, hs⟩ | ⟨a, b, c, d, e, rest, hs, hlen⟩
  · rw [internal_four hs] at h
    rw [ipBlocked_four hs, missed_four hs]
    constructor
    · rintro (rfl | rfl | ⟨rfl, -⟩ | ⟨rfl, -⟩ | ⟨rfl, -⟩ | ⟨rfl, -⟩ | rfl) <;> decide
    · intro hno
      rcases h with ha | ⟨ha, -⟩ | (ha | hab | hab) | hab | ha
      · exact .inl ha
      · exact .inr (.inr (.inr (.inr (.inr (.inr ha)))))
      · exact .inr (.inl ha)
      · exact .inr (.inr (.inl hab))
      · exact .inr (.inr (.inr (.inl hab)))
      · exact .inr (.inr (.inr (.inr (.inl hab))))
      · exact absurd ha hno
  · rw [internal_sixteen hs] at h
    rw [ipBlocked_sixteen hs (by rw [List.length_cons, List.length_cons, List.length_cons, hlen]),
      missed_sixteen hs]
    constructor
    · rintro (hone | ha | ⟨rfl, -⟩) (hff | hzero)
      · rw [hs, hff] at hone
        cases hone
      · rw [hone] at hzero
        exact absurd hzero (by decide)
      · rw [hff] at ha
        exact absurd ha (by decide)
      · rw [hs] at hzero
        obtain rfl : a = 0 := (List.cons.inj hzero).1
        exact absurd ha (by decide)
      · exact absurd hff (by decide)
      · rw [hs] at hzero
        cases hzero
    · intro hno
      rcases h with hone | hzero | ha | hab | ha
      · exact .inl hone
      · exact absurd (.inr hzero) hno
      · exact .inr (.inl ha)
      · exact .inr (.inr hab)
      · exact absurd (.inl ha) hno

/-! ## The guard -/

theorem error_ne_ok {ε α : Type} {e : ε} {a : α} : (Except.error e : Except ε α) ≠ .ok a := by
  intro h
  cases h

theorem guard_ok {net : NetLib} {rawURL : GoString} {u : URL}
    (hu : net.parse (trimSpace rawURL) = .ok u) :
    guardPublicURL net false rawURL = .ok () ↔ checkName u = .ok () ∧ checkAddress net u = .ok () := by
  have hrun : guardPublicURL net false rawURL = (checkName u >>= fun _ => checkAddress net u) := by
    unfold guardPublicURL
    rw [hu]
    rfl
  rw [hrun]
  cases checkName u with
  | error e => exact iff_of_false error_ne_ok fun h => error_ne_ok h.1
  | ok _ => exact (and_iff_right rfl).symm

theorem guard_error {net : NetLib} {rawURL : GoString} :
    (∃ e, guardPublicURL net false rawURL = .error e) ↔ guardPublicURL net false rawURL ≠ .ok () := by
  cases guardPublicURL net false rawURL with
  | error e => exact iff_of_true ⟨e, rfl⟩ error_ne_ok
  | ok _ => exact iff_of_false (fun ⟨e, h⟩ => error_ne_ok h.symm) (not_not.2 rfl)

theorem checkAddress_literal {net : NetLib} {u : URL} {ip : IP}
    (hip : parseIP (toLower u.hostname) = some ip) :
    checkAddress net u = .ok () ↔ ipBlocked ip = false := by
  unfold checkAddress
  rw [hip]
  cases hblocked : ipBlocked ip with
  | true => simp [hblocked]
  | false => simp [hblocked]

theorem checkAddress_name {net : NetLib} {u : URL} {ips : List IP}
    (hip : parseIP (toLower u.hostname) = none) (hips : net.lookupIP (toLower u.hostname) = .ok ips) :
    checkAddress net u = .ok () ↔ ∀ ip ∈ ips, ipBlocked ip = false := by
  unfold checkAddress
  rw [hip]
  simp only [hips]
  cases hfind : ips.find? ipBlocked with
  | some ip =>
    have hmem := List.mem_of_find?_eq_some hfind
    have hblocked := List.find?_some hfind
    refine iff_of_false error_ne_ok fun h => ?_
    rw [h ip hmem] at hblocked
    cases hblocked
  | none =>
    exact iff_of_true rfl fun ip hmem =>
      Bool.eq_false_of_not_eq_true (List.find?_eq_none.1 hfind ip hmem)

/-- The guard keeps internal addresses out exactly where the table misses none. -/
theorem keepsOut_iff (net : NetLib) (rawURL : GoString) :
    KeepsOut net rawURL ↔ NoneMissed net rawURL := by
  constructor
  · intro h u hu hname
    obtain ⟨hliteral, hresolved⟩ := h u hu
    refine ⟨fun ip hip hmissed => ?_, fun hip ips hips ip hmem hmissed => ?_⟩
    · have hinternal := internal_of_missed hmissed
      refine guard_error.1 (hliteral ip hip hinternal) ((guard_ok hu).2 ⟨hname, ?_⟩)
      refine (checkAddress_literal (parseIP_toLower hip)).2 (Bool.eq_false_of_not_eq_true fun hb => ?_)
      exact (blocked_iff_of_internal hinternal).1 hb hmissed
    · by_contra hno
      push Not at hno
      have hpass := (checkAddress_name hip hips).2 fun other hother =>
        Bool.eq_false_of_not_eq_true (hno other hother)
      exact hresolved hip ((guard_ok hu).2 ⟨hname, hpass⟩) ips hips ip hmem (internal_of_missed hmissed)
  · intro h u hu
    refine ⟨fun ip hip hinternal => guard_error.2 fun hok => ?_, fun hip hok ips hips ip hmem hinternal => ?_⟩
    · obtain ⟨hname, hpass⟩ := (guard_ok hu).1 hok
      have hblocked := (blocked_iff_of_internal hinternal).2 ((h u hu hname).1 ip hip)
      rw [(checkAddress_literal (parseIP_toLower hip)).1 hpass] at hblocked
      cases hblocked
    · obtain ⟨hname, hpass⟩ := (guard_ok hu).1 hok
      have hfree := (checkAddress_name hip hips).1 hpass
      have hseen : ¬Missed ip := by
        intro hmissed
        obtain ⟨other, hother, hblocked⟩ := (h u hu hname).2 hip ips hips ip hmem hmissed
        rw [hfree other hother] at hblocked
        cases hblocked
      have hblocked := (blocked_iff_of_internal hinternal).2 hseen
      rw [hfree ip hmem] at hblocked
      cases hblocked

/-- `url.Parse` on `http://[::]/`, and no other URL. -/
def unspecifiedNet : NetLib where
  parse s := if s = str "http://[::]/" then .ok ⟨str "http", str "[::]"⟩ else .error []
  lookupIP _ := .error []

/-- The unspecified address of IPv6 passes. -/
theorem unspecified_passes : ¬KeepsOut unspecifiedNet "http://[::]/" := by
  intro h
  have hu : unspecifiedNet.parse (trimSpace "http://[::]/") = .ok ⟨str "http", str "[::]"⟩ := by
    decide
  obtain ⟨e, he⟩ := (h _ hu).1 ⟨List.replicate 16 0, .inr rfl⟩ (by decide) (by decide)
  have hok : guardPublicURL unspecifiedNet false "http://[::]/" = .ok () := by decide
  rw [hok] at he
  cases he

end Gafam.Karaka
