import Gafam.Relay.Fetch
import Gafam.Karaka.Proofs.SsrfProofs

/-!
# Where redirects lead a tool

The guard is asked once, about the URL of the agent, so that every later request goes where the servers
send it: the tools stay on public URLs exactly if no redirect leaves them.
-/

namespace Gafam.Relay

open Gafam.Go Gafam.Karaka

variable {net : NetLib} {c : Client} {servers : Servers} {url : GoString}

/-! ## The requests of one run -/

theorem follow_stop {sent : List GoString} (h : redirect c servers sent = none) (n : Nat) :
    follow c servers n sent = sent := by
  cases n with
  | zero => rfl
  | succ n =>
    unfold follow
    rw [h]

theorem follow_next {sent : List GoString} {target : GoString}
    (h : redirect c servers sent = some target) (n : Nat) :
    follow c servers (n + 1) sent = follow c servers n (target :: sent) := by
  conv_lhs => unfold follow
  rw [h]

theorem subset_follow (n : Nat) (sent : List GoString) : sent ⊆ follow c servers n sent := by
  induction n generalizing sent with
  | zero => exact List.Subset.refl _
  | succ n ih =>
    cases h : redirect c servers sent with
    | none =>
      rw [follow_stop h]
      exact List.Subset.refl _
    | some target =>
      rw [follow_next h]
      exact fun u hu => ih (target :: sent) (List.mem_cons_of_mem _ hu)

/-- A client that follows a redirect has followed fewer than ten. -/
theorem redirect_length {sent : List GoString} {target : GoString}
    (h : redirect c servers sent = some target) : sent.length ≤ 10 := by
  by_contra hlong
  obtain ⟨location, -, hnext⟩ := Option.bind_eq_some_iff.1 h
  rw [c.limit sent location (by omega)] at hnext
  cases hnext

/-- Every list of requests on the way is one that the run goes through. -/
theorem Led.send {sent : List GoString} (h : Led c servers url sent) :
    ∃ n, n + sent.length = 11 ∧ send c servers url = follow c servers n sent := by
  induction h with
  | start => exact ⟨10, rfl, rfl⟩
  | @step sent target _ hnext ih =>
    obtain ⟨n, hn, hsend⟩ := ih
    have hlen := redirect_length hnext
    obtain ⟨k, rfl⟩ : ∃ k, n = k + 1 := ⟨n - 1, by omega⟩
    refine ⟨k, ?_, ?_⟩
    · rw [List.length_cons]
      omega
    · rw [hsend, follow_next hnext]

/-- A request of the rest of a run goes where a redirect on the way leads, or was issued before. -/
theorem mem_follow {sent : List GoString} (hled : Led c servers url sent) {n : Nat} {u : GoString}
    (h : u ∈ follow c servers n sent) :
    u ∈ sent ∨ ∃ sent', Led c servers url sent' ∧ redirect c servers sent' = some u := by
  induction n generalizing sent with
  | zero => exact .inl h
  | succ n ih =>
    cases hnext : redirect c servers sent with
    | none =>
      rw [follow_stop hnext] at h
      exact .inl h
    | some target =>
      rw [follow_next hnext] at h
      rcases ih (hled.step hnext) h with hu | hu
      · rcases List.mem_cons.1 hu with rfl | hu
        · exact .inr ⟨sent, hled, hnext⟩
        · exact .inl hu
      · exact .inr hu

/-- The requests of a run are the first one and the targets of the redirects on the way. -/
theorem mem_send {u : GoString} : u ∈ send c servers url ↔
    u = url ∨ ∃ sent, Led c servers url sent ∧ redirect c servers sent = some u := by
  constructor
  · intro h
    exact (mem_follow .start h).imp_left List.mem_singleton.1
  · rintro (rfl | ⟨sent, hled, hnext⟩)
    · exact subset_follow _ _ (List.mem_singleton.2 rfl)
    · obtain ⟨n, -, hsend⟩ := (hled.step hnext).send
      rw [hsend]
      exact subset_follow _ _ (List.mem_cons_self ..)

/-- No run has more than eleven requests. -/
theorem send_length : (send c servers url).length ≤ 11 := by
  have hbound : ∀ n sent, (follow c servers n sent).length ≤ sent.length + n := by
    intro n
    induction n with
    | zero => exact fun sent => le_refl _
    | succ n ih =>
      intro sent
      cases h : redirect c servers sent with
      | none =>
        rw [follow_stop h]
        omega
      | some target =>
        rw [follow_next h]
        have := ih (target :: sent)
        rw [List.length_cons] at this
        omega
  exact hbound 10 [url]

/-- After a first request to a public URL, a run stays on public URLs iff the redirects do. -/
theorem send_public_iff (hurl : guardPublicURL net false url = .ok ()) :
    (∀ u ∈ send c servers url, guardPublicURL net false u = .ok ()) ↔
      RedirectsPublic net c servers url := by
  constructor
  · intro h sent target hled hnext
    exact h target (mem_send.2 (.inr ⟨sent, hled, hnext⟩))
  · intro h u hu
    rcases mem_send.1 hu with rfl | ⟨sent, hled, hnext⟩
    · exact hurl
    · exact h sent u hled hnext

/-! ## The two tools -/

theorem onlyPublic_error (err : FetchError) : OnlyPublic net (.error err) := by
  intro sent h
  cases h

theorem onlyPublic_ok {sent : List GoString} :
    OnlyPublic net (.ok sent) ↔ ∀ u ∈ sent, guardPublicURL net false u = .ok () :=
  ⟨fun h => h sent rfl, fun h _ hs => Except.ok.inj hs ▸ h⟩

variable (net c servers url) in
/-- `vaultFetchNote` refuses, or the URL is public and it issues the requests of a run. -/
theorem vault_cases : VaultRefuses net url ∧ (∃ err, vaultFetchNote net c servers url = .error err) ∨
    ¬VaultRefuses net url ∧ guardPublicURL net false url = .ok () ∧
      vaultFetchNote net c servers url = .ok (send c servers url) := by
  unfold VaultRefuses vaultFetchNote
  cases hhttp : startsWithHTTP url with
  | false => exact .inl ⟨.inl rfl, .notHTTP, rfl⟩
  | true =>
    cases hguard : guardPublicURL net false url with
    | error err => exact .inl ⟨.inr (.inl ⟨err, rfl⟩), .blocked err, rfl⟩
    | ok _ =>
      cases hparse : net.parse url with
      | error err => exact .inl ⟨.inr (.inr ⟨err, rfl⟩), .request err, rfl⟩
      | ok u =>
        refine .inr ⟨?_, rfl, rfl⟩
        rintro (h | ⟨err, h⟩ | ⟨err, h⟩) <;> cases h

variable (net c servers url) in
/-- `browser.sense` refuses and issues nothing, or the URL is public and the sidecar issues the requests of
a run. -/
theorem sense_cases (wakeErr : Option GoString) (question : GoString) :
    SenseRefuses net wakeErr url question ∧
      OnlyPublic net (browserSense net c servers wakeErr url question) ∨
    ¬SenseRefuses net wakeErr url question ∧ guardPublicURL net false url = .ok () ∧
      browserSense net c servers wakeErr url question = .ok (send c servers url) := by
  unfold SenseRefuses browserSense
  by_cases hempty : url = [] ∨ question = []
  · rw [if_pos hempty]
    exact .inl ⟨or_assoc.1 (.inl hempty), onlyPublic_error _⟩
  rw [if_neg hempty]
  cases hguard : guardPublicURL net false url with
  | error err => exact .inl ⟨.inr (.inr (.inl ⟨err, rfl⟩)), onlyPublic_error _⟩
  | ok _ =>
    cases wakeErr with
    | some err => exact .inl ⟨.inr (.inr (.inr (.inl rfl))), onlyPublic_error _⟩
    | none =>
      unfold fetchPage
      cases hhttp : startsWithHTTP url with
      | false =>
        refine .inl ⟨.inr (.inr (.inr (.inr rfl))), onlyPublic_ok.2 fun u hu => ?_⟩
        exact absurd hu List.not_mem_nil
      | true =>
        refine .inr ⟨?_, rfl, rfl⟩
        rintro (h | h | ⟨err, h⟩ | h | h)
        · exact hempty (.inl h)
        · exact hempty (.inr h)
        all_goals cases h

/-- Each of the two tools stays on public URLs exactly if it refuses the URL, or no redirect that the client
follows leads to a URL that the guard rejects. -/
theorem tools_public_iff (net : NetLib) (c : Client) (servers : Servers) (wakeErr : Option GoString)
    (url question : GoString) :
    (OnlyPublic net (vaultFetchNote net c servers url) ↔
      VaultRefuses net url ∨ RedirectsPublic net c servers url) ∧
    (OnlyPublic net (browserSense net c servers wakeErr url question) ↔
      SenseRefuses net wakeErr url question ∨ RedirectsPublic net c servers url) := by
  constructor
  · rcases vault_cases net c servers url with ⟨hrefuse, err, hrun⟩ | ⟨haccept, hguard, hrun⟩
    · rw [hrun]
      exact iff_of_true (onlyPublic_error err) (.inl hrefuse)
    · rw [hrun, onlyPublic_ok, send_public_iff hguard]
      exact (or_iff_right haccept).symm
  · rcases sense_cases net c servers url wakeErr question with
      ⟨hrefuse, hpublic⟩ | ⟨haccept, hguard, hrun⟩
    · exact iff_of_true hpublic (.inl hrefuse)
    · rw [hrun, onlyPublic_ok, send_public_iff hguard]
      exact (or_iff_right haccept).symm

/-! ## A redirect to the metadata of the cloud -/

/-- `url.Parse` and the resolver on a public page and on the address of the metadata service. -/
def pageNet : NetLib where
  parse s :=
    if s = str "http://example.com/" then .ok ⟨str "http", str "example.com"⟩
    else if s = str "http://169.254.169.254/" then .ok ⟨str "http", str "169.254.169.254"⟩
    else .error []
  lookupIP h :=
    if h = str "example.com" then .ok [⟨v4InV6Prefix ++ [93, 184, 215, 14], .inr rfl⟩] else .error []

/-- A client that goes to any absolute URL, ten times at most. -/
def absoluteClient : Client where
  next sent location := if 10 < sent.length then none else some location
  limit _ _ h := if_pos h

/-- The page answers with a redirect, and nothing else does. -/
def redirectingPage : Servers := fun sent =>
  if sent = [str "http://example.com/"] then some (str "http://169.254.169.254/") else none

/-- Both tools follow the page to the address of the metadata service. -/
theorem redirect_leaves :
    ¬OnlyPublic pageNet (vaultFetchNote pageNet absoluteClient redirectingPage "http://example.com/") ∧
      ¬OnlyPublic pageNet
        (browserSense pageNet absoluteClient redirectingPage none "http://example.com/" "?") := by
  have hled : str "http://169.254.169.254/" ∈
      send absoluteClient redirectingPage "http://example.com/" := by
    refine mem_send.2 (.inr ⟨[str "http://example.com/"], .start, ?_⟩)
    decide
  have hbad : guardPublicURL pageNet false "http://169.254.169.254/" ≠ .ok () := by decide
  have hvault : vaultFetchNote pageNet absoluteClient redirectingPage "http://example.com/" =
      .ok (send absoluteClient redirectingPage "http://example.com/") := by decide
  have hsense : browserSense pageNet absoluteClient redirectingPage none "http://example.com/" "?" =
      .ok (send absoluteClient redirectingPage "http://example.com/") := by decide
  exact ⟨fun h => hbad (h _ hvault _ hled), fun h => hbad (h _ hsense _ hled)⟩

end Gafam.Relay
