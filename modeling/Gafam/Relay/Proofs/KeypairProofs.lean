import Gafam.Go.Proofs.TextProofs
import Gafam.Relay.Feed
import Gafam.Relay.Proofs.SigningProofs

/-!
# One key pair for a node

All calls return the same pair as long as no call finds the setting empty that is not the only one at
work.
-/

namespace Gafam.Relay

open Gafam.Go Gafam.Lib

/-! ## The setting -/

theorem colon_notMem_hexEncode (s : GoString) : (0x3A : UInt8) ∉ hexEncode s := by
  intro h
  obtain ⟨n, hn, hc⟩ := mem_hexEncode h
  have hall : ∀ n, n < 16 → (0x3A : UInt8) ≠ hexDigit n := by decide
  exact hall n hn hc

/-- A stored pair is read back. -/
theorem parseKeypair_store (k : Keypair) : parseKeypair k.store = some k := by
  have hindex := index_colon (colon_notMem_hexEncode k.pub) (hexEncode k.priv)
  have hsplit : splitN ":" 2 k.store = [hexEncode k.pub, hexEncode k.priv] := by
    unfold Keypair.store splitN
    rw [hindex]
    dsimp only
    rw [List.take_left, show (str ":").length = 1 from by decide, List.drop_append]
    simp [splitN]
  unfold parseKeypair
  rw [hsplit]
  dsimp only
  rw [hexDecode_encode, hexDecode_encode]
  exact dif_pos ⟨k.pubSize, k.privSize⟩

/-! ## Steps -/

/-- What one step does. -/
inductive KeyMove (s : KeyState) : KeyAction → KeyState → Prop
  | begins : KeyMove s .call { s with calls := s.calls ++ [.reading] }
  | finds {i : Nat} {ok : Bool} {k : Keypair} (hi : s.calls[i]? = some .reading)
    (hk : parseKeypair (s.getSetting ok) = some k) : KeyMove s (.read i ok) (s.go i (.returned k))
  | findsNone {i : Nat} {ok : Bool} (hi : s.calls[i]? = some .reading)
    (hk : parseKeypair (s.getSetting ok) = none) : KeyMove s (.read i ok) (s.go i .generating)
  | makes {i : Nat} {k : Keypair} (hi : s.calls[i]? = some .generating) :
    KeyMove s (.generate i (some k)) (s.go i (.writing k))
  | fails {i : Nat} (hi : s.calls[i]? = some .generating) :
    KeyMove s (.generate i none) (s.go i .failed)
  | writes {i : Nat} {k : Keypair} (hi : s.calls[i]? = some (.writing k)) :
    KeyMove s (.write i true) (KeyState.go { s with setting := k.store } i (.returned k))
  | losesWrite {i : Nat} {k : Keypair} (hi : s.calls[i]? = some (.writing k)) :
    KeyMove s (.write i false) (s.go i (.returned k))

theorem keyMove_of_step {s s' : KeyState} {a : KeyAction} (h : getNodeKeypairStep s a = some s') :
    KeyMove s a s' := by
  cases a with
  | call =>
    cases h
    exact .begins
  | read i ok =>
    unfold getNodeKeypairStep at h
    dsimp only at h
    split at h
    · rename_i hi
      split at h
      · rename_i k hk
        cases h
        exact .finds hi hk
      · rename_i hk
        cases h
        exact .findsNone hi hk
    · cases h
  | generate i k =>
    unfold getNodeKeypairStep at h
    dsimp only at h
    split at h
    · rename_i k hi
      cases h
      exact .makes hi
    · rename_i hi
      cases h
      exact .fails hi
    · cases h
  | write i ok =>
    unfold getNodeKeypairStep at h
    dsimp only at h
    split at h
    · rename_i k hi
      cases h
      cases ok with
      | true => exact .writes hi
      | false => exact .losesWrite hi
    · cases h

/-! ## The invariant -/

/-- A call that has no pair and is not making one. -/
def KeyPhase.Idle : KeyPhase → Prop
  | .reading | .failed => True
  | .generating | .writing _ | .returned _ => False

/-- A call that does not find a pair in the setting is right about it, and no other call is between its
read and its write, or has returned. -/
def FindsNoneAlone (s : KeyState) : KeyAction → Prop
  | .read _ ok =>
    parseKeypair (s.getSetting ok) = none →
      parseKeypair s.setting = none ∧ ∀ p ∈ s.calls, p.Idle
  | _ => True

/-- Nothing has happened yet, or one call makes the pair, or it is settled. -/
inductive KeyInv (s : KeyState) : Prop
  | fresh (hcalls : ∀ (j : Nat) (p : KeyPhase), s.calls[j]? = some p → p.Idle)
  | making (i : Nat) (hset : parseKeypair s.setting = none) (hi : i < s.calls.length)
    (hcalls : ∀ (j : Nat) (p : KeyPhase), j ≠ i → s.calls[j]? = some p → p.Idle)
    (hself : ∀ k : Keypair, s.calls[i]? ≠ some (.returned k))
  | settled (k : Keypair) (hset : ∀ k', parseKeypair s.setting = some k' → k' = k)
    (hcalls : ∀ (j : Nat) (p : KeyPhase), s.calls[j]? = some p → p.Idle ∨ p = .returned k)

/-- The calls after a new one has begun. -/
theorem getElem?_begins {s : KeyState} {j : Nat} {p : KeyPhase}
    (h : (s.calls ++ [KeyPhase.reading])[j]? = some p) : s.calls[j]? = some p ∨ p = .reading := by
  rcases Nat.lt_or_ge j s.calls.length with hlt | hge
  · rw [List.getElem?_append_left hlt] at h
    exact .inl h
  · rw [List.getElem?_append_right hge] at h
    exact .inr (List.mem_singleton.1 (List.mem_of_getElem? h))

/-- The calls after one of them has gone on. -/
theorem getElem?_go {s : KeyState} {i j : Nat} {p q : KeyPhase}
    (h : (s.go i q).calls[j]? = some p) : (j ≠ i ∧ s.calls[j]? = some p) ∨ (j = i ∧ p = q) := by
  unfold KeyState.go at h
  dsimp only at h
  by_cases hji : j = i
  · subst hji
    have hlt := (List.getElem?_eq_some_iff.1 h).1
    rw [List.length_set] at hlt
    rw [List.getElem?_set_self hlt] at h
    exact .inr ⟨rfl, (Option.some.inj h).symm⟩
  · rw [List.getElem?_set_ne (Ne.symm hji)] at h
    exact .inl ⟨hji, h⟩

theorem length_go (s : KeyState) (i : Nat) (p : KeyPhase) : (s.go i p).calls.length = s.calls.length :=
  List.length_set

/-- A read gives what the setting holds, or nothing. -/
theorem parseKeypair_getSetting {s : KeyState} {ok : Bool} {k : Keypair}
    (h : parseKeypair (s.getSetting ok) = some k) : parseKeypair s.setting = some k := by
  cases ok with
  | true => exact h
  | false =>
    have hempty : parseKeypair [] = none := by decide
    rw [show s.getSetting false = [] from rfl, hempty] at h
    cases h

/-- A call at work is the one that makes the pair. -/
theorem making_of_busy {s : KeyState} (h : KeyInv s) {i : Nat} {p : KeyPhase}
    (hi : s.calls[i]? = some p) (hbusy : ¬ p.Idle) (hnot : ∀ k, p ≠ .returned k) :
    parseKeypair s.setting = none ∧ i < s.calls.length ∧
      ∀ j p, j ≠ i → s.calls[j]? = some p → p.Idle := by
  cases h with
  | fresh hcalls => exact absurd (hcalls i p hi) hbusy
  | making i' hset hlt hcalls hself =>
    by_cases hne : i = i'
    · subst hne
      exact ⟨hset, hlt, hcalls⟩
    · exact absurd (hcalls i p hne hi) hbusy
  | settled k hset hcalls =>
    rcases hcalls i p hi with hidle | hreturned
    · exact absurd hidle hbusy
    · exact absurd hreturned (hnot k)

/-- The call that makes the pair returns it. -/
theorem settled_of_returned {s : KeyState} {i : Nat} {k : Keypair}
    (hset : ∀ k', parseKeypair s.setting = some k' → k' = k)
    (hcalls : ∀ j p, j ≠ i → s.calls[j]? = some p → p.Idle ∨ p = .returned k) :
    KeyInv (s.go i (.returned k)) := by
  refine .settled k hset fun j p hj => ?_
  rcases getElem?_go hj with ⟨hji, hj⟩ | ⟨-, rfl⟩
  · exact hcalls j p hji hj
  · exact .inr rfl

/-- Each step keeps the invariant. -/
theorem keyInv_step {s s' : KeyState} {a : KeyAction} (h : KeyInv s) (hC : FindsNoneAlone s a)
    (hstep : getNodeKeypairStep s a = some s') : KeyInv s' := by
  cases keyMove_of_step hstep with
  | begins =>
    cases h with
    | fresh hcalls =>
      refine .fresh fun j p hj => ?_
      rcases getElem?_begins hj with hj | rfl
      · exact hcalls j p hj
      · trivial
    | making i hset hi hcalls hself =>
      refine .making i hset ?_ ?_ ?_
      · dsimp only
        rw [List.length_append]
        omega
      · intro j p hji hj
        rcases getElem?_begins hj with hj | rfl
        · exact hcalls j p hji hj
        · trivial
      · intro k hk
        rcases getElem?_begins hk with hk | hk
        · exact hself k hk
        · cases hk
    | settled k hset hcalls =>
      refine .settled k hset fun j p hj => ?_
      rcases getElem?_begins hj with hj | rfl
      · exact hcalls j p hj
      · exact .inl trivial
  | @finds i ok k hi hk =>
    have hstored := parseKeypair_getSetting hk
    have hsame : ∀ k', parseKeypair s.setting = some k' → k' = k := by
      intro k' hk'
      rw [hstored] at hk'
      exact (Option.some.inj hk').symm
    cases h with
    | fresh hcalls => exact settled_of_returned hsame fun j p _ hj => .inl (hcalls j p hj)
    | making i' hset =>
      rw [hset] at hstored
      cases hstored
    | settled k' hset hcalls =>
      obtain rfl := hset k hstored
      exact settled_of_returned hsame fun j p _ hj => hcalls j p hj
  | @findsNone i ok hi hk =>
    obtain ⟨hset, hidle⟩ := hC hk
    have hlt := (List.getElem?_eq_some_iff.1 hi).1
    refine .making i hset (by rw [length_go]; exact hlt) ?_ ?_
    · intro j p hji hj
      rcases getElem?_go hj with ⟨-, hj⟩ | ⟨heq, -⟩
      · exact hidle p (List.mem_of_getElem? hj)
      · exact absurd heq hji
    · intro k hk
      rcases getElem?_go hk with ⟨hne, -⟩ | ⟨-, hk⟩
      · exact absurd rfl hne
      · cases hk
  | @makes i k hi =>
    obtain ⟨hset, hlt, hcalls⟩ := making_of_busy h hi id nofun
    refine .making i hset (by rw [length_go]; exact hlt) ?_ ?_
    · intro j p hji hj
      rcases getElem?_go hj with ⟨-, hj⟩ | ⟨heq, -⟩
      · exact hcalls j p hji hj
      · exact absurd heq hji
    · intro k hk
      rcases getElem?_go hk with ⟨hne, -⟩ | ⟨-, hk⟩
      · exact absurd rfl hne
      · cases hk
  | @fails i hi =>
    obtain ⟨hset, hlt, hcalls⟩ := making_of_busy h hi id nofun
    refine .fresh fun j p hj => ?_
    rcases getElem?_go hj with ⟨hji, hj⟩ | ⟨-, rfl⟩
    · exact hcalls j p hji hj
    · trivial
  | @writes i k hi =>
    obtain ⟨hset, hlt, hcalls⟩ := making_of_busy h hi id nofun
    have hstored : ∀ k', parseKeypair k.store = some k' → k' = k := by
      intro k' hk'
      rw [parseKeypair_store] at hk'
      exact (Option.some.inj hk').symm
    exact settled_of_returned (s := { s with setting := k.store }) hstored
      fun j p hji hj => .inl (hcalls j p hji hj)
  | @losesWrite i k hi =>
    obtain ⟨hset, hlt, hcalls⟩ := making_of_busy h hi id nofun
    refine settled_of_returned (fun k' hk' => ?_) fun j p hji hj => .inl (hcalls j p hji hj)
    rw [hset] at hk'
    cases hk'

/-- When the invariant holds, all calls have returned the same pair. -/
theorem keyInv_same {s : KeyState} (h : KeyInv s) {i j : Nat} {k k' : Keypair} (hi : s.Returned i k)
    (hj : s.Returned j k') : k = k' := by
  cases h with
  | fresh hcalls => exact (hcalls i _ hi).elim
  | making i' hset hlt hcalls hself =>
    by_cases hne : i = i'
    · subst hne
      exact absurd hi (hself k)
    · exact (hcalls i _ hne hi).elim
  | settled k₀ hset hcalls =>
    rcases hcalls i _ hi with h | h
    · exact h.elim
    rcases hcalls j _ hj with h' | h'
    · exact h'.elim
    cases h
    cases h'
    rfl

/-! ## Where the pairs come from -/

/-- The pairs that the setting and the calls hold have this property. -/
def KeysHold (P : Keypair → Prop) (s : KeyState) : Prop :=
  (∀ k, parseKeypair s.setting = some k → P k) ∧
    ∀ j k, s.calls[j]? = some (.writing k) ∨ s.Returned j k → P k

/-- A step that makes a pair makes one with this property. -/
def Makes (P : Keypair → Prop) : KeyAction → Prop
  | .generate _ (some k) => P k
  | _ => True

theorem holds_go {P : Keypair → Prop} {s : KeyState} (h : KeysHold P s) {i : Nat} {q : KeyPhase}
    (hq : ∀ k, q = .writing k ∨ q = .returned k → P k) : KeysHold P (s.go i q) := by
  refine ⟨h.1, fun j k hj => ?_⟩
  rcases hj with hj | hj
  · rcases getElem?_go hj with ⟨-, hj⟩ | ⟨-, hj⟩
    · exact h.2 j k (.inl hj)
    · exact hq k (.inl hj.symm)
  · rcases getElem?_go hj with ⟨-, hj⟩ | ⟨-, hj⟩
    · exact h.2 j k (.inr hj)
    · exact hq k (.inr hj.symm)

theorem holds_step {P : Keypair → Prop} {s s' : KeyState} {a : KeyAction} (h : KeysHold P s)
    (hC : Makes P a) (hstep : getNodeKeypairStep s a = some s') : KeysHold P s' := by
  cases keyMove_of_step hstep with
  | begins =>
    refine ⟨h.1, fun j k hj => ?_⟩
    rcases hj with hj | hj
    · rcases getElem?_begins hj with hj | hj
      · exact h.2 j k (.inl hj)
      · cases hj
    · rcases getElem?_begins hj with hj | hj
      · exact h.2 j k (.inr hj)
      · cases hj
  | finds hi hk =>
    refine holds_go h fun k' hk' => ?_
    rcases hk' with hk' | hk'
    · cases hk'
    · cases hk'
      exact h.1 _ (parseKeypair_getSetting hk)
  | findsNone hi hk => exact holds_go h (by rintro k' (hk' | hk') <;> cases hk')
  | makes hi =>
    refine holds_go h fun k' hk' => ?_
    rcases hk' with hk' | hk'
    · cases hk'
      exact hC
    · cases hk'
  | fails hi => exact holds_go h (by rintro k' (hk' | hk') <;> cases hk')
  | @writes i k hi =>
    have hk : P k := h.2 i k (.inl hi)
    refine holds_go (s := { s with setting := k.store }) ⟨?_, h.2⟩ fun k' hk' => ?_
    · intro k' hk'
      dsimp only at hk'
      rw [parseKeypair_store] at hk'
      cases hk'
      exact hk
    · rcases hk' with hk' | hk'
      · cases hk'
      · cases hk'
        exact hk
  | @losesWrite i k hi =>
    refine holds_go h fun k' hk' => ?_
    rcases hk' with hk' | hk'
    · cases hk'
    · cases hk'
      exact h.2 i _ (.inl hi)

/-! ## Runs -/

/-- The keys of a pair belong together: what the private one signs, the public one verifies. -/
def Keypair.Matches (E : Ed25519) (k : Keypair) : Prop :=
  ∀ message, E.verify k.pub message (E.sign k.priv message) = true

/-- All calls return the same pair, and what is signed with the one of them verifies with the one of
another. -/
def OneKeypair (E : Ed25519) (s : KeyState) : Prop :=
  ∀ i j k k', s.Returned i k → s.Returned j k' →
    k = k' ∧ ∀ message, E.verify k'.pub message (E.sign k.priv message) = true

theorem oneKeypair {E : Ed25519} {s₀ s : KeyState} {as : List KeyAction} (hstart : s₀.calls = [])
    (hstored : ∀ k, parseKeypair s₀.setting = some k → k.Matches E)
    (hmade : ∀ a ∈ as, Makes (Keypair.Matches E) a)
    (hmeet : StepsMeet getNodeKeypairStep FindsNoneAlone s₀ as)
    (hrun : runSteps getNodeKeypairStep s₀ as = some s) : OneKeypair E s := by
  have hinv : KeyInv s := by
    refine runSteps_invariant_of_meet (fun _ _ _ => keyInv_step) hrun hmeet (.fresh ?_)
    rw [hstart]
    exact nofun
  have hholds : KeysHold (Keypair.Matches E) s := by
    have hmakes : StepsMeet getNodeKeypairStep (fun _ a => Makes (Keypair.Matches E) a) s₀ as :=
      stepsMeet_of_forall (fun a ha _ => hmade a ha) s₀
    refine runSteps_invariant_of_meet (fun _ _ _ => holds_step) hrun hmakes ⟨hstored, ?_⟩
    unfold KeyState.Returned
    rw [hstart]
    rintro j k (h | h) <;> cases h
  intro i j k k' hi hj
  have hsame := keyInv_same hinv hi hj
  subst hsame
  exact ⟨rfl, hholds.2 i k (.inr hi)⟩

/-! ## Two pairs -/

/-- A pair. -/
def sampleKeypair : Keypair where
  pub := samplePublic
  priv := samplePrivate
  pubSize := by decide
  privSize := by decide

/-- Another public key. -/
def otherPublic : GoString :=
  (hexDecode "3d4017c3e843895a92b70aa74d1b7ebc9c982ccf2ec4968cc0cd55f12af4660c").getD []

/-- Another pair. -/
def otherKeypair : Keypair where
  pub := otherPublic
  priv :=
    (hexDecode "4ccd089b28ff96da9db6c346ec114e0f5b8a319f35aba624da8cf6ed4fb8a6fb").getD [] ++
      otherPublic
  pubSize := by decide
  privSize := by decide

/-- The signatures that the first pair makes. -/
def sampleSign (message : GoString) : GoString :=
  if message = helloMessage then helloSignature else quoteSignature

/-- Signing with the first pair. -/
def sampleSigner : Ed25519 where
  sign _ message := sampleSign message
  verify pub message signature := pub = samplePublic ∧ signature = sampleSign message

/-- A call makes the pair, and a second one reads it. -/
def quietRun : List KeyAction :=
  [.call, .read 0 true, .generate 0 (some sampleKeypair), .write 0 true, .call, .read 1 true]

set_option maxRecDepth 8000 in
theorem quietRun_meets : StepsMeet getNodeKeypairStep FindsNoneAlone ⟨[], []⟩ quietRun := by
  let k := sampleKeypair
  have hread : ∀ p ∈ [KeyPhase.reading], p.Idle := by
    intro p hp
    rw [List.mem_singleton.1 hp]
    trivial
  have hstored : FindsNoneAlone ⟨k.store, [.returned k, .reading]⟩ (.read 1 true) := by
    intro hnone
    rw [show KeyState.getSetting ⟨k.store, [.returned k, .reading]⟩ true = k.store from rfl,
      parseKeypair_store] at hnone
    cases hnone
  have h1 : getNodeKeypairStep ⟨[], []⟩ .call = some ⟨[], [.reading]⟩ := rfl
  have h2 : getNodeKeypairStep ⟨[], [.reading]⟩ (.read 0 true) = some ⟨[], [.generating]⟩ := by
    decide
  have h3 : getNodeKeypairStep ⟨[], [.generating]⟩ (.generate 0 (some k)) =
      some ⟨[], [.writing k]⟩ := by decide
  have h4 : getNodeKeypairStep ⟨[], [.writing k]⟩ (.write 0 true) =
      some ⟨k.store, [.returned k]⟩ := by decide
  have h5 : getNodeKeypairStep ⟨k.store, [.returned k]⟩ .call =
      some ⟨k.store, [.returned k, .reading]⟩ := by decide
  have hempty : FindsNoneAlone ⟨[], [.reading]⟩ (.read 0 true) := fun _ => ⟨by decide, hread⟩
  exact stepsMeet_cons trivial h1 (stepsMeet_cons hempty h2 (stepsMeet_cons trivial h3
    (stepsMeet_cons trivial h4 (stepsMeet_cons trivial h5 ⟨hstored, fun _ _ => trivial⟩))))

set_option maxRecDepth 8000 in
theorem oneKeypair_quiet :
    ∃ s, runSteps getNodeKeypairStep ⟨[], []⟩ quietRun = some s ∧ s.Returned 0 sampleKeypair ∧
      s.Returned 1 sampleKeypair ∧ OneKeypair sampleSigner s := by
  let k := sampleKeypair
  have hrun : runSteps getNodeKeypairStep ⟨[], []⟩ quietRun =
      some ⟨k.store, [.returned k, .returned k]⟩ := by decide
  have hmatches : sampleKeypair.Matches sampleSigner := by
    intro message
    simp [sampleSigner, sampleKeypair]
  refine ⟨_, hrun, rfl, rfl, oneKeypair rfl ?_ ?_ quietRun_meets hrun⟩
  · intro k hk
    rw [show parseKeypair [] = none from by decide] at hk
    cases hk
  · intro a ha
    simp only [quietRun, List.mem_cons, List.not_mem_nil, or_false] at ha
    rcases ha with rfl | rfl | rfl | rfl | rfl | rfl
    · trivial
    · trivial
    · exact hmatches
    · trivial
    · trivial
    · trivial

/-- Two calls read the empty setting before one of them writes, and a third one reads what is left. -/
def racingRun : List KeyAction :=
  [.call, .call, .read 0 true, .read 1 true, .generate 0 (some sampleKeypair),
    .generate 1 (some otherKeypair), .write 0 true, .write 1 true, .call, .read 2 true]

set_option maxRecDepth 8000 in
/-- The calls return two pairs, and what is signed with the first one does not verify with the key that
is announced afterwards. -/
theorem two_keypairs :
    ∃ s, runSteps getNodeKeypairStep ⟨[], []⟩ racingRun = some s ∧ s.Returned 0 sampleKeypair ∧
      s.Returned 1 otherKeypair ∧ s.Returned 2 otherKeypair ∧
      sampleSigner.verify samplePublic helloMessage
        (sampleSigner.sign sampleKeypair.priv helloMessage) = true ∧
      sampleSigner.verify otherKeypair.pub helloMessage
        (sampleSigner.sign sampleKeypair.priv helloMessage) = false := by
  have hrun : runSteps getNodeKeypairStep ⟨[], []⟩ racingRun =
      some ⟨otherKeypair.store,
        [.returned sampleKeypair, .returned otherKeypair, .returned otherKeypair]⟩ := by
    decide
  exact ⟨_, hrun, rfl, rfl, rfl, by decide, by decide⟩

end Gafam.Relay
