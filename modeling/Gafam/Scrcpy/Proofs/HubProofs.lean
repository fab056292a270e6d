import Gafam.Scrcpy.Hub
import Mathlib.Data.Nat.Find

/-!
# Whose configuration the hub keeps

What the hub keeps is what the connected bridge has sent, in every run in which a bridge is taken only
while nothing is kept of another one and only the connected bridge has something kept. A forced
reconnect breaks the first condition: the hub is not cleared for the new bridge, and the cleanup of the
old one no longer clears it either.
-/

namespace Gafam.Scrcpy

open Gafam.Go Gafam.Lib

variable {marshal : ScrcpyDeviceInfo → GoString} {unmarshal : GoString → Option ScrcpyDeviceInfo}

/-! ## Logs -/

theorem firstVideo_append {l : List GoString} {data : GoString} (h : firstVideo l = some data)
    (l' : List GoString) : firstVideo (l ++ l') = some data := by
  unfold firstVideo at h ⊢
  rw [List.find?_append, h]
  rfl

theorem firstVideo_snoc (l : List GoString) (data : GoString) :
    firstVideo (l ++ [data]) = if isVideo data then (firstVideo l).or (some data) else firstVideo l := by
  unfold firstVideo
  rw [List.find?_append]
  split_ifs with hv
  · rw [List.find?_cons_of_pos hv]
  · rw [List.find?_cons_of_neg hv, List.find?_nil, Option.or_none]

theorem lastInfo_snoc (l : List GoString) (data : GoString) :
    lastInfo unmarshal (l ++ [data]) = (infoOf unmarshal data).or (lastInfo unmarshal l) := by
  unfold lastInfo
  rw [List.filterMap_append]
  cases h : infoOf unmarshal data with
  | none => rw [List.filterMap_cons_none h, List.filterMap_nil, List.append_nil, Option.none_or]
  | some info =>
    rw [List.filterMap_cons_some h, List.filterMap_nil, List.getLast?_concat, Option.some_or]

theorem infoOf_video {data : GoString} (h : isVideo data = true) : infoOf unmarshal data = none := by
  cases data with
  | nil => rfl
  | cons t json =>
    have ht : t = msgTypeVideo := by simpa [isVideo] using h
    unfold infoOf
    rw [ht]
    exact if_neg (by decide)

theorem handled_prefix_received (b : Bridge) : b.handled <+: b.received := by
  unfold Bridge.received
  split
  · exact List.prefix_append _ _
  · exact List.prefix_rfl

/-! ## The invariant -/

/-- What the hub keeps is what its bridge has sent. -/
structure HubInv (unmarshal : GoString → Option ScrcpyDeviceInfo) (h : ScrcpyHub) : Prop where
  fresh : ∀ (i : Nat) (b : Bridge), h.bridges[i]? = some b → b.pc = .upgrading → b.handled = []
  idle : h.bridge = none → h.videoConfig = none ∧ h.deviceInfo = none
  own : ∀ i, h.bridge = some i → ∃ b, h.bridges[i]? = some b ∧
    h.videoConfig = firstVideo b.handled ∧ h.deviceInfo = lastInfo unmarshal b.handled
  given : ∀ v ∈ h.viewers, ∀ data, v.config = some data →
    ∃ i b, v.host = some i ∧ h.bridges[i]? = some b ∧ firstVideo b.handled = some data

/-- The invariant is what the property asks for. -/
theorem HubInv.current {h : ScrcpyHub} (hinv : HubInv unmarshal h) : CacheCurrent unmarshal h := by
  have hlog : ∀ {b : Bridge} {data}, firstVideo b.handled = some data →
      firstVideo b.received = some data := by
    intro b data hb
    obtain ⟨rest, hrest⟩ := handled_prefix_received b
    rw [← hrest]
    exact firstVideo_append hb rest
  constructor
  · intro data hdata
    cases hb : h.bridge with
    | none =>
      rw [(hinv.idle hb).1] at hdata
      cases hdata
    | some i =>
      obtain ⟨b, hi, hvideo, hinfo⟩ := hinv.own i hb
      exact ⟨i, b, rfl, hi, hlog (hvideo.symm.trans hdata), hinfo⟩
  · intro v hv data hdata
    obtain ⟨i, b, hhost, hi, hvideo⟩ := hinv.given v hv data hdata
    exact ⟨i, b, hhost, hi, hlog hvideo⟩

/-- The viewers change: each one is as it was, or has joined with what the hub keeps. -/
theorem HubInv.viewers {h : ScrcpyHub} (hinv : HubInv unmarshal h) {vs : List Viewer}
    (hvs : ∀ v ∈ vs, v.config = none ∨ (v.config = h.videoConfig ∧ v.host = h.bridge) ∨
      ∃ v' ∈ h.viewers, v.config = v'.config ∧ v.host = v'.host) :
    HubInv unmarshal { h with viewers := vs } where
  fresh := hinv.fresh
  idle := hinv.idle
  own := hinv.own
  given v hv data hdata := by
    rcases hvs v hv with hnone | ⟨hconfig, hhost⟩ | ⟨v', hv', hconfig, hhost⟩
    · rw [hnone] at hdata
      cases hdata
    · rw [hconfig] at hdata
      cases hb : h.bridge with
      | none =>
        rw [(hinv.idle hb).1] at hdata
        cases hdata
      | some i =>
        obtain ⟨b, hi, hvideo, -⟩ := hinv.own i hb
        exact ⟨i, b, hhost.trans hb, hi, hvideo.symm.trans hdata⟩
    · rw [hconfig] at hdata
      obtain ⟨i, b, hi, hb, hvideo⟩ := hinv.given v' hv' data hdata
      exact ⟨i, b, hhost.trans hi, hb, hvideo⟩

theorem HubInv.broadcast {h : ScrcpyHub} (hinv : HubInv unmarshal h) (shell : Bool) (data : GoString) :
    HubInv unmarshal (h.broadcast shell data) := by
  refine hinv.viewers fun v hv => ?_
  obtain ⟨v', hv', rfl⟩ := List.mem_map.1 hv
  refine .inr (.inr ⟨v', hv', ?_⟩)
  unfold Viewer.send
  split_ifs
  · exact ⟨rfl, rfl⟩
  · exact ⟨rfl, rfl⟩

/-- One viewer changes. -/
theorem HubInv.setViewer {h : ScrcpyHub} (hinv : HubInv unmarshal h) {k : Nat} {v v' : Viewer}
    (hk : h.viewers[k]? = some v)
    (hv' : (v'.config = v.config ∧ v'.host = v.host) ∨ v'.config = none ∨
      (v'.config = h.videoConfig ∧ v'.host = h.bridge)) :
    HubInv unmarshal { h with viewers := h.viewers.set k v' } := by
  refine hinv.viewers fun w hw => ?_
  rcases List.mem_or_eq_of_mem_set hw with hw | rfl
  · exact .inr (.inr ⟨w, hw, rfl, rfl⟩)
  · rcases hv' with hsame | hnone | hjoined
    · exact .inr (.inr ⟨v, List.mem_of_getElem? hk, hsame⟩)
    · exact .inl hnone
    · exact .inr (.inl hjoined)

/-- The logs of the bridges go on. -/
def LogsGrow (bs bs' : List Bridge) : Prop :=
  ∀ (i : Nat) (b : Bridge), bs[i]? = some b → ∃ b' : Bridge, bs'[i]? = some b' ∧ b.handled <+: b'.handled

theorem logsGrow_set {bs : List Bridge} {i : Nat} {b b' : Bridge} (hi : bs[i]? = some b)
    (hlog : b.handled <+: b'.handled) : LogsGrow bs (bs.set i b') := by
  intro j c hj
  by_cases hij : i = j
  · subst hij
    rw [hi] at hj
    cases hj
    refine ⟨b', ?_, hlog⟩
    rw [List.getElem?_set_self (List.getElem?_eq_some_iff.1 hi).1]
  · exact ⟨c, by rw [List.getElem?_set_ne hij]; exact hj, List.prefix_rfl⟩

theorem HubInv.given_grow {h : ScrcpyHub} (hinv : HubInv unmarshal h) {bs : List Bridge}
    (hbs : LogsGrow h.bridges bs) : ∀ v ∈ h.viewers, ∀ data, v.config = some data →
      ∃ i b, v.host = some i ∧ bs[i]? = some b ∧ firstVideo b.handled = some data := by
  intro v hv data hdata
  obtain ⟨i, b, hhost, hi, hvideo⟩ := hinv.given v hv data hdata
  obtain ⟨b', hi', rest, hrest⟩ := hbs i b hi
  exact ⟨i, b', hhost, hi', hrest ▸ firstVideo_append hvideo rest⟩

theorem fresh_set {bs : List Bridge} {i : Nat} {b' : Bridge}
    (hfresh : ∀ (i : Nat) (b : Bridge), bs[i]? = some b → b.pc = .upgrading → b.handled = []) (hpc : b'.pc ≠ .upgrading) :
    ∀ (j : Nat) (b : Bridge), (bs.set i b')[j]? = some b → b.pc = .upgrading → b.handled = [] := by
  intro j b hj hup
  by_cases hij : i = j
  · subst hij
    rw [List.getElem?_set, if_pos rfl] at hj
    split_ifs at hj
    cases hj
    exact absurd hup hpc
  · rw [List.getElem?_set_ne hij] at hj
    exact hfresh j b hj hup

/-- A bridge goes on without a new message. -/
theorem HubInv.go {h : ScrcpyHub} (hinv : HubInv unmarshal h) {i : Nat} {b : Bridge} {pc : BridgePc}
    (hi : h.bridges[i]? = some b) (hpc : pc ≠ .upgrading) :
    HubInv unmarshal (h.go i ⟨pc, b.handled⟩) where
  fresh := fresh_set hinv.fresh hpc
  idle := hinv.idle
  own j hj := by
    obtain ⟨c, hc, hvideo, hinfo⟩ := hinv.own j hj
    by_cases hij : i = j
    · subst hij
      rw [hi] at hc
      cases hc
      exact ⟨_, List.getElem?_set_self (List.getElem?_eq_some_iff.1 hi).1, hvideo, hinfo⟩
    · exact ⟨c, (List.getElem?_set_ne hij).trans hc, hvideo, hinfo⟩
  given := hinv.given_grow (logsGrow_set hi List.prefix_rfl)

/-- The hub takes a bridge while it keeps nothing. -/
theorem HubInv.take {h : ScrcpyHub} (hinv : HubInv unmarshal h) {i : Nat}
    (hi : h.bridges[i]? = some ⟨.upgrading, []⟩) (hvideo : h.videoConfig = none)
    (hinfo : h.deviceInfo = none) :
    HubInv unmarshal { h.go i ⟨.reading, []⟩ with bridge := some i, bridgeReady := true } where
  fresh := fresh_set hinv.fresh BridgePc.noConfusion
  idle hb := by cases hb
  own j hj := by
    cases hj
    exact ⟨⟨.reading, []⟩, List.getElem?_set_self (List.getElem?_eq_some_iff.1 hi).1, hvideo, hinfo⟩
  given := hinv.given_grow (logsGrow_set hi List.prefix_rfl)

/-- The hub keeps a message of the connected bridge, or keeps nothing of it. -/
theorem HubInv.keep {h : ScrcpyHub} (hinv : HubInv unmarshal h) {i : Nat} {b : Bridge} {pc : BridgePc}
    {data : GoString} (hi : h.bridges[i]? = some b) (hpc : pc ≠ .upgrading)
    (hown : h.Keeps unmarshal data → h.bridge = some i) :
    HubInv unmarshal ((h.keep unmarshal data).go i ⟨pc, b.handled ++ [data]⟩) := by
  have hset : (h.bridges.set i ⟨pc, b.handled ++ [data]⟩)[i]? = some ⟨pc, b.handled ++ [data]⟩ :=
    List.getElem?_set_self (List.getElem?_eq_some_iff.1 hi).1
  have hgrow : LogsGrow h.bridges (h.bridges.set i ⟨pc, b.handled ++ [data]⟩) :=
    logsGrow_set hi (List.prefix_append _ _)
  have hbridge : (h.keep unmarshal data).bridge = h.bridge := by
    unfold ScrcpyHub.keep
    split_ifs
    · rfl
    · rfl
  have hbridges : (h.keep unmarshal data).bridges = h.bridges := by
    unfold ScrcpyHub.keep
    split_ifs
    · rfl
    · rfl
  have hviewers : (h.keep unmarshal data).viewers = h.viewers := by
    unfold ScrcpyHub.keep
    split_ifs
    · rfl
    · rfl
  -- nothing is kept of a message of another bridge
  have hsame : h.bridge ≠ some i →
      (h.keep unmarshal data).videoConfig = h.videoConfig ∧
        (h.keep unmarshal data).deviceInfo = h.deviceInfo := by
    intro hne
    have hno : ¬ h.Keeps unmarshal data := fun hk => hne (hown hk)
    unfold ScrcpyHub.Keeps at hno
    rw [not_or, not_and, Option.not_isSome_iff_eq_none] at hno
    unfold ScrcpyHub.keep
    split_ifs with hv
    · refine ⟨?_, rfl⟩
      obtain ⟨old, hold⟩ := Option.ne_none_iff_exists'.1 (hno.1 hv)
      simp only [hold, Option.some_or]
    · refine ⟨rfl, ?_⟩
      simp only [hno.2, Option.none_or]
  refine ⟨?_, ?_, ?_, ?_⟩
  · show ∀ j c, ((h.keep unmarshal data).bridges.set i _)[j]? = some c → _
    rw [hbridges]
    exact fresh_set hinv.fresh hpc
  · intro hb
    have hb' : h.bridge = none := hbridge.symm.trans hb
    obtain ⟨hvideo, hinfo⟩ := hinv.idle hb'
    obtain ⟨hvideo', hinfo'⟩ := hsame (by rw [hb']; exact Option.some_ne_none i |>.symm)
    exact ⟨hvideo'.trans hvideo, hinfo'.trans hinfo⟩
  · intro j hj
    have hj' : h.bridge = some j := hbridge.symm.trans hj
    obtain ⟨c, hc, hvideo, hinfo⟩ := hinv.own j hj'
    show ∃ c, ((h.keep unmarshal data).bridges.set i _)[j]? = some c ∧ _
    rw [hbridges]
    by_cases hij : i = j
    · subst hij
      rw [hi] at hc
      cases hc
      refine ⟨_, hset, ?_⟩
      show (h.keep unmarshal data).videoConfig = _ ∧ (h.keep unmarshal data).deviceInfo = _
      rw [firstVideo_snoc, lastInfo_snoc, ← hvideo, ← hinfo]
      unfold ScrcpyHub.keep
      split_ifs with hv
      · rw [infoOf_video hv, Option.none_or]
        exact ⟨rfl, rfl⟩
      · exact ⟨rfl, rfl⟩
    · obtain ⟨hvideo', hinfo'⟩ := hsame (by rw [hj']; exact fun he => hij (Option.some.inj he).symm)
      exact ⟨c, (List.getElem?_set_ne hij).trans hc, hvideo'.trans hvideo, hinfo'.trans hinfo⟩
  · show ∀ v ∈ (h.keep unmarshal data).viewers, ∀ d, v.config = some d →
      ∃ j c, v.host = some j ∧ ((h.keep unmarshal data).bridges.set i _)[j]? = some c ∧ _
    rw [hbridges, hviewers]
    exact hinv.given_grow hgrow

/-- The deferred function, of the connected bridge or of another one. -/
theorem HubInv.cleanup {h : ScrcpyHub} (hinv : HubInv unmarshal h) (i : Nat) :
    HubInv unmarshal (h.cleanup i) := by
  unfold ScrcpyHub.cleanup
  split_ifs with hb
  · refine ⟨hinv.fresh, fun _ => ⟨rfl, rfl⟩, fun j hj => (by cases hj), fun v hv => ?_⟩
    obtain ⟨w, hw, rfl⟩ := List.mem_map.1 hv
    have hclose : w.close.config = w.config ∧ w.close.host = w.host := by
      unfold Viewer.close
      split_ifs
      · exact ⟨rfl, rfl⟩
      · exact ⟨rfl, rfl⟩
    rw [hclose.1, hclose.2]
    exact hinv.given w hw
  · exact hinv

/-- A bridge that connects has handled nothing. -/
theorem HubInv.connect {h : ScrcpyHub} (hinv : HubInv unmarshal h) :
    HubInv unmarshal { h with bridges := h.bridges ++ [⟨.upgrading, []⟩] } where
  fresh i b hb hup := by
    rw [List.getElem?_append] at hb
    split_ifs at hb with hlt
    · exact hinv.fresh i b hb hup
    · rw [List.mem_singleton.1 (List.mem_of_getElem? hb)]
  idle := hinv.idle
  own i hi := by
    obtain ⟨b, hb, hkept⟩ := hinv.own i hi
    exact ⟨b, (List.getElem?_append_left (List.getElem?_eq_some_iff.1 hb).1).trans hb, hkept⟩
  given := hinv.given_grow fun i b hb =>
    ⟨b, (List.getElem?_append_left (List.getElem?_eq_some_iff.1 hb).1).trans hb, List.prefix_rfl⟩

/-- One critical section. -/
theorem hubInv_step {h h' : ScrcpyHub} {a : HubAction} (hinv : HubInv unmarshal h)
    (hC : OneBridge unmarshal h a) (hstep : hubStep marshal unmarshal h a = some h') :
    HubInv unmarshal h' := by
  cases a with
  | connect force =>
    unfold hubStep at hstep
    dsimp only at hstep
    split_ifs at hstep
    · cases hstep
      exact hinv
    · cases hstep
      exact hinv.connect
  | upgrade i ok =>
    unfold hubStep at hstep
    dsimp only at hstep
    split at hstep
    · next l hi =>
      obtain rfl : l = [] := hinv.fresh i _ hi rfl
      split_ifs at hstep with hok
      · cases hstep
        obtain ⟨hvideo, hinfo⟩ := hC hok
        exact hinv.take hi hvideo hinfo
      · cases hstep
        exact hinv.go hi BridgePc.noConfusion
    · cases hstep
  | receive i binary data =>
    unfold hubStep at hstep
    dsimp only at hstep
    split at hstep
    · next l hi =>
      split_ifs at hstep
      · cases hstep
        exact hinv
      · cases hstep
        exact hinv.go hi BridgePc.noConfusion
    · cases hstep
  | fail i =>
    unfold hubStep at hstep
    dsimp only at hstep
    split at hstep
    · next l hi =>
      cases hstep
      exact hinv.go hi BridgePc.noConfusion
    · cases hstep
  | cache i =>
    unfold hubStep at hstep
    dsimp only at hstep
    split at hstep
    · next binary data l hi =>
      cases hstep
      refine hinv.keep hi ?_ (hC _ binary data hi rfl)
      split
      · exact BridgePc.noConfusion
      · exact BridgePc.noConfusion
    · cases hstep
  | broadcast i =>
    unfold hubStep at hstep
    dsimp only at hstep
    split at hstep
    · next shell data l hi =>
      cases hstep
      exact (hinv.broadcast shell data).go hi BridgePc.noConfusion
    · cases hstep
  | cleanup i =>
    unfold hubStep at hstep
    dsimp only at hstep
    split at hstep
    · next l hi =>
      cases hstep
      have hi' : (h.cleanup i).bridges[i]? = some ⟨.leaving, l⟩ := by
        unfold ScrcpyHub.cleanup
        split_ifs
        · exact hi
        · exact hi
      exact (hinv.cleanup i).go hi' BridgePc.noConfusion
    · cases hstep
  | ping =>
    unfold hubStep at hstep
    dsimp only at hstep
    split_ifs at hstep
    cases hstep
    exact (hinv.broadcast false _).broadcast true _
  | watch shell =>
    unfold hubStep at hstep
    dsimp only at hstep
    by_cases hready : h.bridgeReady = true
    · rw [if_pos hready] at hstep
      cases hstep
      refine hinv.viewers fun v hv => ?_
      rcases List.mem_append.1 hv with hv | hv
      · exact .inr (.inr ⟨v, hv, rfl, rfl⟩)
      · rw [List.mem_singleton.1 hv]
        exact .inl rfl
    · rw [if_neg hready] at hstep
      cases hstep
      exact hinv
  | join k =>
    unfold hubStep at hstep
    dsimp only at hstep
    split at hstep
    · next v hk =>
      split_ifs at hstep
      cases hstep
      refine hinv.setViewer hk ?_
      unfold ScrcpyHub.enlist
      split_ifs
      · exact .inr (.inl rfl)
      · exact .inr (.inr ⟨rfl, rfl⟩)
    · cases hstep
  | turn k t =>
    unfold hubStep at hstep
    dsimp only at hstep
    split at hstep
    · next v hk =>
      split_ifs at hstep
      cases hstep
      exact hinv.setViewer hk (.inl ⟨rfl, rfl⟩)
    · cases hstep
  | leave k =>
    unfold hubStep at hstep
    dsimp only at hstep
    split at hstep
    · next v hk =>
      split_ifs at hstep
      cases hstep
      exact hinv.setViewer hk (.inl ⟨rfl, rfl⟩)
    · cases hstep

theorem hubInv_start : HubInv unmarshal ScrcpyHub.start where
  fresh _ _ hb := by cases hb
  idle _ := ⟨rfl, rfl⟩
  own _ hi := by cases hi
  given _ hv := absurd hv List.not_mem_nil

/-- In every run in which a bridge is taken only while nothing is kept of another one, and only the
connected bridge has something kept, the hub keeps the configuration and the device of the bridge that
is connected, and no viewer was given another one. -/
theorem cacheCurrent_of_oneBridge {as : List HubAction} {h : ScrcpyHub}
    (hrun : runSteps (hubStep marshal unmarshal) .start as = some h)
    (hC : StepsMeet (hubStep marshal unmarshal) (OneBridge unmarshal) .start as) :
    CacheCurrent unmarshal h :=
  (runSteps_invariant_of_meet (fun _ _ _ hinv hC hstep => hubInv_step hinv hC hstep) hrun hC
    hubInv_start).current

/-- The steps of the hub where no device is described. -/
def plainStep : ScrcpyHub → HubAction → Option ScrcpyHub := hubStep (fun _ => []) fun _ => none

/-- The hub after a bridge has sent its first video frame. -/
def oneFrame : ScrcpyHub :=
  ⟨some 0, true, none, some [1, 7], [⟨.broadcasting false [1, 7], [[1, 7]]⟩], []⟩

theorem cacheCurrent_oneFrame :
    runSteps plainStep .start [.connect false, .upgrade 0 true, .receive 0 true [1, 7], .cache 0] =
      some oneFrame ∧ CacheCurrent (fun _ => none) oneFrame := by
  have h1 : plainStep .start (.connect false) = some ⟨none, false, none, none, [⟨.upgrading, []⟩], []⟩ :=
    rfl
  have h2 : plainStep ⟨none, false, none, none, [⟨.upgrading, []⟩], []⟩ (.upgrade 0 true) =
    some ⟨some 0, true, none, none, [⟨.reading, []⟩], []⟩ := rfl
  have h3 : plainStep ⟨some 0, true, none, none, [⟨.reading, []⟩], []⟩ (.receive 0 true [1, 7]) =
    some ⟨some 0, true, none, none, [⟨.caching true [1, 7], []⟩], []⟩ := rfl
  have h4 : plainStep ⟨some 0, true, none, none, [⟨.caching true [1, 7], []⟩], []⟩ (.cache 0) =
    some oneFrame := rfl
  have hrun : runSteps plainStep .start
      [.connect false, .upgrade 0 true, .receive 0 true [1, 7], .cache 0] = some oneFrame := rfl
  refine ⟨hrun, @cacheCurrent_of_oneBridge (fun _ => []) _ _ _ hrun ?_⟩
  refine stepsMeet_cons trivial h1 (stepsMeet_cons (fun _ => ⟨rfl, rfl⟩) h2 ?_)
  exact stepsMeet_cons trivial h3 (stepsMeet_cons (fun _ _ _ _ _ _ => rfl) h4 trivial)

/-- A forced reconnect leaves the configuration of the old bridge in the hub. -/
theorem reconnect_keeps_old : ¬ ∀ as h, runSteps plainStep .start as = some h →
    CacheCurrent (fun _ => none) h := by
  intro hall
  have hrun : runSteps plainStep .start
      [.connect false, .upgrade 0 true, .receive 0 true [1, 7], .cache 0, .connect true,
        .upgrade 1 true] =
      some ⟨some 1, true, none, some [1, 7],
        [⟨.broadcasting false [1, 7], [[1, 7]]⟩, ⟨.reading, []⟩], []⟩ := rfl
  obtain ⟨i, b, hi, hb, hvideo, -⟩ := (hall _ _ hrun).1 [1, 7] rfl
  cases hi
  cases hb
  cases hvideo

/-!
## How the messages of a stream arrive, and when it ends

A frame at the front of the buffer gives its message, and a proper prefix of a frame gives nothing. As
the viewer's loop does not see how the body was cut, what it has taken are the messages whose frames
have arrived whole.
-/

theorem length_frame (data : GoString) : (frame data).length = data.length + 4 := rfl

theorem getUint32_frame {data : GoString} (h : data.length < 2 ^ 32) (rest : GoString) :
    getUint32 (frame data ++ rest) = data.length := by
  unfold frame
  simp only [List.cons_append, getUint32, UInt8.toNat_ofNat']
  omega

/-- A whole frame. -/
theorem takeFrame_frame {data : GoString} (h : data.length < 2 ^ 32) (rest : GoString) :
    takeFrame (frame data ++ rest) = some (data, rest) := by
  refine takeFrame_eq_some.2 ?_
  rw [getUint32_frame h, List.length_append, length_frame]
  refine ⟨by omega, by omega, ?_, ?_⟩
  · exact (@List.take_left _ data rest).symm
  · rw [show 4 + data.length = (frame data).length by rw [length_frame]; omega, List.drop_left]

/-- A frame that has not arrived whole. -/
theorem takeFrame_prefix {data b : GoString} (h : data.length < 2 ^ 32) (hb : b <+: frame data)
    (hlt : b.length < (frame data).length) : takeFrame b = none :=
  @Decoder.next_cut _ _ frames _ frame id data (takeFrame_frame h) b hb hlt

/-- Frames at the front of a buffer are taken one after the other. -/
theorem drain_written {messages : List GoString} (h : ∀ m ∈ messages, m.length < 2 ^ 32)
    (rest : GoString) :
    frames.drain (written messages ++ rest) =
      (messages ++ (frames.drain rest).1, (frames.drain rest).2) := by
  have hall : frames.drain (messages.flatMap frame ++ rest) =
      (messages.map id ++ (frames.drain rest).1, (frames.drain rest).2) :=
    Decoder.drain_flatMap (fun m hm => takeFrame_frame (h m hm)) rest
  rw [List.map_id] at hall
  exact hall

/-- The viewer has taken exactly the messages that have arrived whole, and what it has not taken is a
piece of the next one. When the whole body has arrived it has taken all messages. -/
theorem reassembled {messages : List GoString} (h : ∀ m ∈ messages, m.length < 2 ^ 32)
    {chunks : List GoString} (hchunks : chunks.flatten <+: written messages) :
    (∃ n, (reassemble chunks).1 = messages.take n ∧
      chunks.flatten = written (messages.take n) ++ (reassemble chunks).2 ∧
      ∀ m, messages[n]? = some m →
        (reassemble chunks).2 <+: frame m ∧ (reassemble chunks).2.length < (frame m).length) ∧
    (chunks.flatten = written messages → reassemble chunks = (messages, [])) := by
  have hall : reassemble chunks = frames.drain chunks.flatten := frames.feedAll_eq chunks rfl
  constructor
  · obtain ⟨n, rest, hflat, hrest⟩ := Decoder.prefix_flatMap hchunks
    change chunks.flatten = written (messages.take n) ++ rest at hflat
    have hnone : takeFrame rest = none := by
      rcases hrest with ⟨-, rfl⟩ | ⟨m, hm, hpre, hlt⟩
      · rfl
      · exact takeFrame_prefix (h m (List.mem_of_getElem? hm)) hpre hlt
    have htaken : reassemble chunks = (messages.take n, rest) := by
      rw [hall, hflat, drain_written fun m hm => h m (List.mem_of_mem_take hm),
        frames.drain_none hnone, List.append_nil]
    rw [htaken]
    refine ⟨n, rfl, hflat, fun m hm => ?_⟩
    rcases hrest with ⟨hdrop, -⟩ | ⟨m', hm', hpre, hlt⟩
    · have hge := List.drop_eq_nil_iff.1 hdrop
      rw [List.getElem?_eq_none hge] at hm
      cases hm
    · rw [hm'] at hm
      cases hm
      exact ⟨hpre, hlt⟩
  · intro hflat
    rw [hall, hflat, ← List.append_nil (written messages), drain_written h, frames.drain_none rfl,
      List.append_nil]

/-- Two messages, cut within a header and within a message. -/
theorem reassembled_two :
    reassemble [[0, 0], [0, 2, 1, 7, 0], [0, 0, 1], [5]] = ([[1, 7], [5]], []) :=
  have hshort : ∀ m ∈ ([[1, 7], [5]] : List GoString), m.length < 2 ^ 32 := forall_of_all (by decide)
  have hbody : ([[0, 0], [0, 2, 1, 7, 0], [0, 0, 1], [5]] : List GoString).flatten =
      written [[1, 7], [5]] := rfl
  (reassembled hshort (hbody ▸ List.prefix_rfl)).2 hbody

/-!
### When a stream ends

The cleanup of a bridge closes the channels of the viewers. A receive from a closed channel never
blocks, and the handlers do not ask whether it has given a message: without a message left the handler
of the video goes on to write empty frames, and that of the shell goes round without writing. What ends
them is the client.
-/

variable {encode : GoString → Option GoString}

/-! ### One turn -/

theorem turn_returned {s : Stream} (h : s.returned = true) (t : Turn) : s.turn encode t = s :=
  if_pos h

/-- A closed channel gives its messages, and then `nil`. -/
theorem recv_closed (l : List GoString) :
    (⟨l, true⟩ : Chan).recv = some (l.headD [], ⟨l.tail, true⟩) := by
  cases l with
  | nil => rfl
  | cons data l => rfl

/-- A turn of a handler whose channel is closed. -/
theorem turn_closed (l : List GoString) (body : GoString) (t : Turn) :
    (⟨⟨l, true⟩, body, false⟩ : Stream).turn encode t =
      if t.done && t.notify then ⟨⟨l, true⟩, body, true⟩
      else
        match encode (l.headD []) with
        | none => ⟨⟨l.tail, true⟩, body, false⟩
        | some bytes =>
          if t.writeOk then ⟨⟨l.tail, true⟩, body ++ bytes, false⟩ else ⟨⟨l.tail, true⟩, body, true⟩ := by
  unfold Stream.turn
  rw [recv_closed]
  rfl

/-! ### The turns of a client -/

variable {c : Client} {s : Stream}

theorem done_mono {n m : Nat} (h : (c.turn n).done = true) (hnm : n ≤ m) : (c.turn m).done = true := by
  induction m, hnm using Nat.le_induction with
  | base => exact h
  | succ m _ ih => exact c.stays m ih

/-- A handler that has returned does nothing any more. -/
theorem run_returned {n m : Nat} (h : (c.run encode s n).returned = true) (hnm : n ≤ m) :
    c.run encode s m = c.run encode s n := by
  induction m, hnm using Nat.le_induction with
  | base => rfl
  | succ m _ ih =>
    rw [← ih] at h
    rw [Client.run, turn_returned h, ih]

theorem length_body_turn (s : Stream) (t : Turn) : s.body.length ≤ (s.turn encode t).body.length := by
  unfold Stream.turn
  split
  · exact Nat.le_refl _
  · split
    · split
      · exact Nat.le_refl _
      · exact Nat.le_refl _
    · split
      · exact Nat.le_refl _
      · split
        · exact Nat.le_refl _
        · split
          · exact List.length_append ▸ Nat.le_add_right ..
          · exact Nat.le_refl _

theorem length_body_run {n m : Nat} (hnm : n ≤ m) :
    (c.run encode s n).body.length ≤ (c.run encode s m).body.length := by
  induction m, hnm using Nat.le_induction with
  | base => exact Nat.le_refl _
  | succ m _ ih => exact Nat.le_trans ih (length_body_turn ..)

/-- A handler that returns has written finitely many bytes. -/
theorem ends_iff_returns : c.Ends encode s ↔ ∃ n, (c.run encode s n).returned = true := by
  constructor
  · rintro ⟨n, hn, -⟩
    exact ⟨n, hn⟩
  · rintro ⟨n, hn⟩
    refine ⟨n, hn, fun m => ?_⟩
    rcases Nat.le_total m n with hmn | hnm
    · exact length_body_run hmn
    · rw [run_returned hn hnm]

/-- The turn at which a handler with a closed channel returns, if there is one. -/
def Client.StopsAt (c : Client) (encode : GoString → Option GoString) (l : List GoString) (n : Nat) :
    Prop :=
  ((c.turn n).done && (c.turn n).notify) = true ∨
    ((encode ((l.drop n).headD [])).isSome = true ∧ (c.turn n).writeOk = false)

/-- As long as no turn stops it, a handler takes one message in each turn. -/
theorem run_closed {l : List GoString} {body : GoString} {n : Nat}
    (h : ∀ m < n, ¬ c.StopsAt encode l m) :
    ∃ body', c.run encode ⟨⟨l, true⟩, body, false⟩ n = ⟨⟨l.drop n, true⟩, body', false⟩ := by
  induction n with
  | zero => exact ⟨body, rfl⟩
  | succ n ih =>
    obtain ⟨body', hrun⟩ := ih fun m hm => h m (Nat.lt_succ_of_lt hm)
    have hn := h n (Nat.lt_succ_self n)
    unfold Client.StopsAt at hn
    rw [not_or] at hn
    rw [Client.run, hrun, turn_closed, if_neg hn.1, List.tail_drop]
    cases he : encode ((l.drop n).headD []) with
    | none => exact ⟨body', rfl⟩
    | some bytes =>
      have hw : (c.turn n).writeOk = true := by
        rw [he] at hn
        simpa using hn.2
      exact ⟨body' ++ bytes, by simp only [hw, if_true]⟩

/-- A handler with a closed channel returns exactly if a turn stops it. -/
theorem returns_iff_stops {l : List GoString} {body : GoString} :
    (∃ n, (c.run encode ⟨⟨l, true⟩, body, false⟩ n).returned = true) ↔ ∃ n, c.StopsAt encode l n := by
  constructor
  · rintro ⟨n, hn⟩
    by_contra hno
    have hstops : ∀ m < n, ¬ c.StopsAt encode l m := fun m _ hm => hno ⟨m, hm⟩
    obtain ⟨body', hrun⟩ := @run_closed _ _ _ body _ hstops
    rw [hrun] at hn
    cases hn
  · intro hstops
    classical
    have hfirst := Nat.find_spec hstops
    obtain ⟨body', hrun⟩ := @run_closed _ _ _ body _ fun m hm => Nat.find_min hstops hm
    refine ⟨Nat.find hstops + 1, ?_⟩
    rw [Client.run, hrun, turn_closed]
    rcases hfirst with hdone | ⟨hsome, hw⟩
    · rw [if_pos hdone]
    · split
      · rfl
      · obtain ⟨bytes, hbytes⟩ := Option.isSome_iff_exists.1 hsome
        simp only [hbytes, hw, Bool.false_eq_true, if_false]

/-- A client that goes away stops the handler in some turn. -/
theorem stops_of_leaves (h : c.Leaves) (l : List GoString) : ∃ n, c.StopsAt encode l n := by
  obtain ⟨n, hn⟩ := h
  obtain ⟨m, hnm, hm⟩ := c.fair n
  exact ⟨m, .inl (by rw [done_mono hn hnm, hm]; rfl)⟩

/-- The handler of a closed channel returns exactly if the client goes away or a write fails. -/
theorem ends_closed_iff {l : List GoString} {body : GoString} :
    c.Ends encode ⟨⟨l, true⟩, body, false⟩ ↔
      c.Leaves ∨ ∃ n, (encode ((l.drop n).headD [])).isSome = true ∧ (c.turn n).writeOk = false := by
  rw [ends_iff_returns, returns_iff_stops]
  constructor
  · rintro ⟨n, hdone | hwrite⟩
    · exact .inl ⟨n, (Bool.and_eq_true_iff.1 hdone).1⟩
    · exact .inr ⟨n, hwrite⟩
  · rintro (hleaves | ⟨n, hwrite⟩)
    · exact stops_of_leaves hleaves l
    · exact ⟨n, .inr hwrite⟩

/-! ### After the cleanup -/

/-- A write fails: any write to a viewer of the video, and to one of the shell a write of a message that
is still in its channel. -/
def Client.WriteFails (c : Client) (v : Viewer) : Prop :=
  if v.shell then
    ∃ n data, v.stream.ch.buffer[n]? = some data ∧ 1 < data.length ∧ (c.turn n).writeOk = false
  else ∃ n, (c.turn n).writeOk = false

theorem writeFails_iff (v : Viewer) :
    (∃ n, (v.encode ((v.stream.ch.buffer.drop n).headD [])).isSome = true ∧
      (c.turn n).writeOk = false) ↔ c.WriteFails v := by
  unfold Client.WriteFails Viewer.encode
  by_cases hs : v.shell = true
  · rw [if_pos hs, if_pos hs]
    refine exists_congr fun n => ?_
    rw [List.headD_eq_head?_getD, List.head?_drop]
    cases hn : v.stream.ch.buffer[n]? with
    | none =>
      constructor
      · rintro ⟨hsome, -⟩
        cases hsome
      · rintro ⟨data, hdata, -⟩
        cases hdata
    | some data =>
      have hframe : (shellFrame data).isSome = true ↔ 1 < data.length := by
        unfold shellFrame
        split_ifs with hlen
        · exact ⟨fun _ => hlen, fun _ => rfl⟩
        · exact ⟨fun hsome => absurd hsome Bool.false_ne_true, fun h => absurd h hlen⟩
      rw [Option.getD_some, hframe]
      constructor
      · rintro ⟨hlen, hw⟩
        exact ⟨data, rfl, hlen, hw⟩
      · rintro ⟨data', hdata', hlen, hw⟩
        cases hdata'
        exact ⟨hlen, hw⟩
  · rw [if_neg hs, if_neg hs]
    exact exists_congr fun n => ⟨And.right, fun hw => ⟨rfl, hw⟩⟩

/-- After the cleanup of the bridge, a handler that was active returns, having written finitely many
bytes, exactly if its client goes away or a write to it fails. -/
theorem ends_after_cleanup {marshal : ScrcpyDeviceInfo → GoString}
    {unmarshal : GoString → Option ScrcpyDeviceInfo} {h h' : ScrcpyHub} {i k : Nat} {v v' : Viewer}
    (hb : h.bridge = some i) (hstep : hubStep marshal unmarshal h (.cleanup i) = some h')
    (hv : h.viewers[k]? = some v) (hlisted : v.stage = .listed) (hactive : v.stream.returned = false)
    (hv' : h'.viewers[k]? = some v') (c : Client) :
    c.Ends v'.encode v'.stream ↔ c.Leaves ∨ c.WriteFails v := by
  have hclosed : v'.encode = v.encode ∧
      v'.stream = ⟨⟨v.stream.ch.buffer, true⟩, v.stream.body, false⟩ := by
    unfold hubStep at hstep
    dsimp only at hstep
    split at hstep
    · cases hstep
      have hmap : (h.viewers.map Viewer.close)[k]? = some v' := by
        unfold ScrcpyHub.cleanup at hv'
        rw [if_pos hb] at hv'
        exact hv'
      rw [List.getElem?_map, hv] at hmap
      cases hmap
      unfold Viewer.close
      rw [if_pos hlisted, ← hactive]
      exact ⟨rfl, rfl⟩
    · cases hstep
  rw [hclosed.1, hclosed.2, ends_closed_iff, writeFails_iff]

/-- A client whose context is done or not from the start, and to which every write succeeds. -/
def steadyClient (done : Bool) : Client where
  turn _ := ⟨done, true, true⟩
  stays _ h := h
  fair n := ⟨n, Nat.le_refl n, rfl⟩

/-- A viewer of the video that has taken everything from its channel. -/
def idleViewer : Viewer := ⟨false, none, .listed, ⟨.empty, [], false⟩, none, some 0⟩

/-- A hub with this viewer whose bridge has just failed. -/
def bridgeGone : ScrcpyHub := ⟨some 0, true, none, none, [⟨.leaving, []⟩], [idleViewer]⟩

/-- The hub after the cleanup. -/
def cleanedUp : ScrcpyHub := ⟨none, false, none, none, [⟨.ended, []⟩], [idleViewer.close]⟩

theorem ends_after_cleanup_idle :
    (steadyClient true).Ends idleViewer.close.encode idleViewer.close.stream ↔
      (steadyClient true).Leaves ∨ (steadyClient true).WriteFails idleViewer := by
  have hstep : hubStep (fun _ => []) (fun _ => none) bridgeGone (.cleanup 0) = some cleanedUp := rfl
  exact ends_after_cleanup (k := 0) rfl hstep rfl rfl rfl rfl (steadyClient true)

/-- A viewer that stays connected is written empty frames for ever. -/
theorem idle_viewer_never_ends : ¬ ∀ (marshal : ScrcpyDeviceInfo → GoString)
    (unmarshal : GoString → Option ScrcpyDeviceInfo) (h h' : ScrcpyHub) (i k : Nat) (v v' : Viewer)
    (c : Client), h.bridge = some i → hubStep marshal unmarshal h (.cleanup i) = some h' →
    h.viewers[k]? = some v → v.stage = .listed → v.stream.returned = false →
    h'.viewers[k]? = some v' → c.Ends v'.encode v'.stream := by
  intro hall
  have hstep : hubStep (fun _ => []) (fun _ => none) bridgeGone (.cleanup 0) = some cleanedUp := rfl
  have hends := hall _ _ _ _ 0 0 idleViewer idleViewer.close (steadyClient false) rfl hstep rfl rfl rfl rfl
  rcases ends_closed_iff.1 hends with ⟨n, hn⟩ | ⟨n, -, hn⟩
  · cases hn
  · cases hn

end Gafam.Scrcpy
