import Gafam.Scrcpy.Input

/-!
# Which control events reach the device

A touch over the screen is decoded into the packet with its action and its coordinates. Outside the screen a
coordinate is negative or too large, a key has no coordinates and a turn of the wheel has no action.
-/

namespace Gafam.Scrcpy

/-! ## Coordinates -/

theorem mathRound_nonneg {q : ℚ} : 0 ≤ mathRound q ↔ -(1 / 2) ≤ q := by
  rw [mathRound, Int.le_floor, Int.cast_zero]
  constructor <;> intro h <;> linarith

theorem mathRound_lt {q : ℚ} {n : Nat} : mathRound q < n ↔ q < n - 1 / 2 := by
  rw [mathRound, Int.floor_lt, Int.cast_natCast]
  constructor <;> intro h <;> linarith

theorem decodeU32_coordinate {c : Option ℤ} {x : UInt32} :
    decodeU32 (some (coordinate c)) = some x ↔ c = some (x.toNat : ℤ) := by
  cases c with
  | none => simp [coordinate, jsonNumber, decodeU32]
  | some n =>
    have hcast : decodeU32 (some (coordinate (some n))) =
        if 0 ≤ n ∧ n < 2 ^ 32 then some (UInt32.ofNat n.toNat) else none := by
      simp [coordinate, jsonNumber, decodeU32]
    rw [hcast, Option.ite_none_right_eq_some, Option.some.injEq, Option.some.injEq]
    have hx := x.toNat_lt
    constructor
    · rintro ⟨⟨hnonneg, hlt⟩, rfl⟩
      have hsmall : n.toNat < 2 ^ 32 := by omega
      rw [UInt32.toNat_ofNat_of_lt' hsmall]
      omega
    · rintro rfl
      refine ⟨⟨by omega, by omega⟩, ?_⟩
      rw [Int.toNat_natCast, UInt32.ofNat_toNat]

theorem coordinate_eq_num {c : Option ℤ} {n : Nat} : coordinate c = .num n ↔ c = some (n : ℤ) := by
  cases c with
  | none => simp [coordinate, jsonNumber]
  | some m =>
    simp only [coordinate, jsonNumber, Option.map_some, Field.num.injEq, Option.some.injEq]
    exact_mod_cast Iff.rfl

/-! ## Objects -/

variable {fl : ℚ → Option ℚ} {screen : Screen}

theorem lookup_touchFields (action : String) (coords : Option ℤ × Option ℤ) :
    (touchFields action coords).lookup "type" = some (.text "touch") ∧
      (touchFields action coords).lookup "action" = some (.text action) ∧
      (touchFields action coords).lookup "x" = some (coordinate coords.1) ∧
      (touchFields action coords).lookup "y" = some (coordinate coords.2) := by
  simp [touchFields, List.lookup_cons]

/-- A touch with an action and coordinates that can be decoded is written as a packet. -/
theorem onInput_eq_some {json : Fields} {action : String} {code : UInt8} {fx fy : Field} {x y : UInt32}
    (htype : json.lookup "type" = some (.text "touch")) (haction : json.lookup "action" = some (.text action))
    (hx : json.lookup "x" = some fx) (hy : json.lookup "y" = some fy) (hdx : decodeU32 (some fx) = some x)
    (hdy : decodeU32 (some fy) = some y) (hcode : actionCode action = some code) :
    onInput screen json = some (touchPacket screen code x y) := by
  have hdecode : decodeInput json = some ⟨"touch", action, x, y⟩ := by
    simp [decodeInput, decodeText, htype, haction, hx, hy, hdx, hdy]
  simp [onInput, hdecode, hcode]

theorem carried_touchFields {action : String} {code : UInt8} (hcode : actionCode action = some code)
    {coords : Option ℤ × Option ℤ} :
    Carried screen (touchFields action coords) ↔
      ∃ m n : Nat, coords = (some (m : ℤ), some (n : ℤ)) ∧ m < screen.width.toNat ∧
        n < screen.height.toNat := by
  obtain ⟨htype, haction, hx, hy⟩ := lookup_touchFields action coords
  constructor
  · rintro ⟨-, -, x, y, -, hfx, hfy, -, hwidth, hheight, -⟩
    rw [hx, Option.some.injEq, coordinate_eq_num] at hfx
    rw [hy, Option.some.injEq, coordinate_eq_num] at hfy
    exact ⟨x.toNat, y.toNat, Prod.ext hfx hfy, hwidth, hheight⟩
  · rintro ⟨m, n, rfl, hm, hn⟩
    have hwidth := screen.width.toNat_lt
    have hheight := screen.height.toNat_lt
    have hxm : (UInt32.ofNat m).toNat = m := UInt32.toNat_ofNat_of_lt' (by simp [UInt32.size]; omega)
    have hyn : (UInt32.ofNat n).toNat = n := UInt32.toNat_ofNat_of_lt' (by simp [UInt32.size]; omega)
    refine ⟨action, code, UInt32.ofNat m, UInt32.ofNat n, haction, ?_, ?_, hcode, ?_, ?_, ?_⟩
    · rw [hx, hxm]
      exact congrArg some (coordinate_eq_num.2 rfl)
    · rw [hy, hyn]
      exact congrArg some (coordinate_eq_num.2 rfl)
    · rwa [hxm]
    · rwa [hyn]
    · have hdx : decodeU32 (some (coordinate (some (m : ℤ)))) = some (UInt32.ofNat m) :=
        decodeU32_coordinate.2 (by rw [hxm])
      have hdy : decodeU32 (some (coordinate (some (n : ℤ)))) = some (UInt32.ofNat n) :=
        decodeU32_coordinate.2 (by rw [hyn])
      exact onInput_eq_some htype haction hx hy hdx hdy hcode

/-- A key has no coordinates. -/
theorem not_carried_keyFields (action code : String) : ¬ Carried screen (keyFields action code) := by
  have hx : (keyFields action code).lookup "x" = none := by simp [keyFields, List.lookup_cons]
  rintro ⟨-, -, x, -, -, hfx, -⟩
  rw [hx] at hfx
  exact absurd hfx.symm (Option.some_ne_none _)

/-- A turn of the wheel has no action. -/
theorem not_carried_scrollFields (coords : Option ℤ × Option ℤ) (deltaX deltaY : ℚ) :
    ¬ Carried screen (scrollFields coords deltaX deltaY) := by
  have haction : (scrollFields coords deltaX deltaY).lookup "action" = none := by
    simp [scrollFields, List.lookup_cons]
  rintro ⟨action, -, -, -, hfaction, -⟩
  rw [haction] at hfaction
  exact absurd hfaction.symm (Option.some_ne_none _)

/-! ## Events -/

theorem overScreen_iff {view : View} {p : Pointer} :
    OverScreen fl screen view p ↔ ∃ m n : Nat, getScaledCoords fl screen view p = (some (m : ℤ), some (n : ℤ)) ∧
      m < screen.width.toNat ∧ n < screen.height.toNat := by
  unfold OverScreen getScaledCoords
  constructor
  · rintro ⟨x, y, hpos, ⟨hx, hwidth⟩, hy, hheight⟩
    obtain ⟨m, hm⟩ := Int.eq_ofNat_of_zero_le (mathRound_nonneg.2 hx)
    obtain ⟨n, hn⟩ := Int.eq_ofNat_of_zero_le (mathRound_nonneg.2 hy)
    have hm' := mathRound_lt.2 hwidth
    have hn' := mathRound_lt.2 hheight
    refine ⟨m, n, ?_, by omega, by omega⟩
    rw [hpos, Option.map_some, Option.map_some, hm, hn]
  · rintro ⟨m, n, hcoords, hm, hn⟩
    obtain ⟨hcx, hcy⟩ := Prod.mk.inj hcoords
    obtain ⟨x, hx, hxm⟩ := Option.map_eq_some_iff.1 hcx
    obtain ⟨y, hy, hyn⟩ := Option.map_eq_some_iff.1 hcy
    refine ⟨x, y, Prod.ext hx hy, ⟨?_, ?_⟩, ?_, ?_⟩
    · exact mathRound_nonneg.1 (by omega)
    · exact mathRound_lt.1 (by omega)
    · exact mathRound_nonneg.1 (by omega)
    · exact mathRound_lt.1 (by omega)

theorem carried_pointer {action : String} {code : UInt8} (hcode : actionCode action = some code) {view : View}
    {p : Pointer} :
    Carried screen (touchFields action (getScaledCoords fl screen view p)) ↔ OverScreen fl screen view p := by
  rw [carried_touchFields hcode, overScreen_iff]

theorem actionCode_down : actionCode "down" = some 0 := by simp [actionCode]

theorem actionCode_up : actionCode "up" = some 1 := by simp [actionCode]

theorem actionCode_move : actionCode "move" = some 2 := by simp [actionCode]

/-- One event: what is sent is carried if and only if the event is harmless. -/
theorem carried_iff_harmless (m : Moment) :
    (∀ json, sends fl screen m = some json → Carried screen json) ↔ Harmless fl screen m := by
  unfold Harmless sends
  cases hconnected : m.view.connected with
  | false => simp
  | true =>
    cases hevent : m.event with
    | mouseDown p => simp [carried_pointer actionCode_down]
    | mouseMove p buttons => by_cases hbuttons : buttons = 1 <;> simp [hbuttons, carried_pointer actionCode_move]
    | mouseUp p => simp [carried_pointer actionCode_up]
    | mouseLeave p => simp [carried_pointer actionCode_up]
    | keyDown code => simp [not_carried_keyFields]
    | keyUp code => simp [not_carried_keyFields]
    | wheel p deltaX deltaY => simp [not_carried_scrollFields]

/-! ## Sessions -/

theorem touchPacket_action (code : UInt8) (x y : UInt32) : (touchPacket screen code x y)[1]? = some code := rfl

/-- A finger that goes up over the screen goes up on the device. -/
theorem release_delivered {m : Moment} (hreleases : m.Releases) (hharmless : Harmless fl screen m) :
    ∃ json packet, sends fl screen m = some json ∧ onInput screen json = some packet ∧
      packet[1]? = some 1 := by
  obtain ⟨hconnected, p, hevent⟩ := hreleases
  have hsends : sends fl screen m = some (touchFields "up" (getScaledCoords fl screen m.view p)) := by
    rcases hevent with hevent | hevent <;> simp [sends, hconnected, hevent]
  obtain ⟨action, code, x, y, haction, -, -, hcode, -, -, hpacket⟩ :=
    (carried_iff_harmless m).2 hharmless _ hsends
  obtain ⟨-, hup, -⟩ := lookup_touchFields "up" (getScaledCoords fl screen m.view p)
  obtain rfl : "up" = action := by
    rw [hup] at haction
    exact Field.text.inj (Option.some.inj haction)
  obtain rfl : 1 = code := Option.some.inj (actionCode_up.symm.trans hcode)
  exact ⟨_, _, hsends, hpacket, touchPacket_action 1 x y⟩

/-- **A session reaches the device, every event with its action and with coordinates inside the screen and
every finger that goes up, if and only if no key is pressed, the wheel is not turned and the pointer is over
the screen at every touch.** -/
theorem faithful_iff (fl : ℚ → Option ℚ) (screen : Screen) (session : List Moment) :
    Faithful fl screen session ↔ ∀ m ∈ session, Harmless fl screen m := by
  constructor
  · intro h m hm
    exact (carried_iff_harmless m).1 (h.carried m hm)
  · intro h
    refine ⟨fun m hm => (carried_iff_harmless m).2 (h m hm), ?_⟩
    rintro before down p after rfl - ⟨up, hup, hreleases⟩
    have hmem : up ∈ before ++ down :: after :=
      List.mem_append_right _ (List.mem_cons_of_mem _ hup)
    obtain ⟨json, packet, hsends, hpacket, haction⟩ := release_delivered hreleases (h up hmem)
    refine ⟨packet, List.mem_filterMap.2 ⟨up, hup, ?_⟩, haction⟩
    rw [hsends, Option.bind_some, hpacket]

/-- A canvas of half the size of the screen. -/
def halfSize : View := ⟨true, true, some ⟨100, 50, 540, 1200⟩⟩

/-- A press at the left edge of the canvas, and the pointer leaves it to the left. -/
def leaveLeft : List Moment :=
  [⟨halfSize, .mouseDown ⟨100, 60⟩⟩, ⟨halfSize, .mouseLeave ⟨99, 60⟩⟩]

theorem position_leaveLeft :
    position some ⟨1080, 2400⟩ halfSize ⟨100, 60⟩ = (some 0, some 20) ∧
      position some ⟨1080, 2400⟩ halfSize ⟨99, 60⟩ = (some (-2), some 20) := by
  have hwidth : (1080 : UInt16).toNat = 1080 := rfl
  have hheight : (2400 : UInt16).toNat = 2400 := rfl
  simp only [position, scaled, halfSize, hwidth, hheight]
  norm_num

/-- The finger goes down on the device, and what is to take it up again is not decoded. -/
theorem leaveLeft_stuck :
    (∃ packet, delivered some ⟨1080, 2400⟩ leaveLeft = [packet] ∧ packet[1]? = some 0) ∧
      ¬ Faithful some ⟨1080, 2400⟩ leaveLeft := by
  obtain ⟨hdown, hleave⟩ := position_leaveLeft
  have hcoords : getScaledCoords some ⟨1080, 2400⟩ halfSize ⟨100, 60⟩ = (some (0 : ℤ), some (20 : ℤ)) := by
    rw [getScaledCoords, hdown]
    norm_num [mathRound]
  have hcoords' : getScaledCoords some ⟨1080, 2400⟩ halfSize ⟨99, 60⟩ = (some (-2 : ℤ), some (20 : ℤ)) := by
    rw [getScaledCoords, hleave]
    norm_num [mathRound]
  constructor
  · refine ⟨touchPacket ⟨1080, 2400⟩ 0 0 20, ?_, rfl⟩
    have hfirst : onInput ⟨1080, 2400⟩ (touchFields "down" (some (0 : ℤ), some (20 : ℤ))) =
        some (touchPacket ⟨1080, 2400⟩ 0 0 20) := by
      obtain ⟨htype, haction, hx, hy⟩ := lookup_touchFields "down" (some (0 : ℤ), some (20 : ℤ))
      exact onInput_eq_some htype haction hx hy (decodeU32_coordinate.2 rfl) (decodeU32_coordinate.2 rfl)
        actionCode_down
    have hsecond : onInput ⟨1080, 2400⟩ (touchFields "up" (some (-2 : ℤ), some (20 : ℤ))) = none := by
      obtain ⟨htype, haction, hx, -⟩ := lookup_touchFields "up" (some (-2 : ℤ), some (20 : ℤ))
      have hneg : decodeU32 (some (coordinate (some (-2 : ℤ)))) = none := by
        norm_num [coordinate, jsonNumber, decodeU32]
      have hdecode : decodeInput (touchFields "up" (some (-2 : ℤ), some (20 : ℤ))) = none := by
        simp [decodeInput, decodeText, htype, haction, hx, hneg]
      simp [onInput, hdecode]
    have hsends : sends some ⟨1080, 2400⟩ ⟨halfSize, .mouseDown ⟨100, 60⟩⟩ =
        some (touchFields "down" (some (0 : ℤ), some (20 : ℤ))) := by
      rw [← hcoords]
      rfl
    have hsends' : sends some ⟨1080, 2400⟩ ⟨halfSize, .mouseLeave ⟨99, 60⟩⟩ =
        some (touchFields "up" (some (-2 : ℤ), some (20 : ℤ))) := by
      rw [← hcoords']
      rfl
    simp only [delivered, leaveLeft, List.filterMap_cons, List.filterMap_nil, hsends, hsends',
      Option.bind_some, hfirst, hsecond]
  · intro h
    have hmem : (⟨halfSize, .mouseLeave ⟨99, 60⟩⟩ : Moment) ∈ leaveLeft := by simp [leaveLeft]
    have hharmless := (carried_iff_harmless _).1 (h.carried _ hmem)
    rcases hharmless with hoff | ⟨x, y, hpos, ⟨hx, -⟩, -⟩
    · exact absurd hoff (by simp [halfSize])
    · rw [hleave] at hpos
      obtain rfl := Option.some.inj (Prod.mk.inj hpos).1
      norm_num at hx

end Gafam.Scrcpy
