import SystemDesign.AdClick.Aggregate
import SystemDesign.Lib.Codec

/-!
Events in their normal form: written, read and normalized again they are the same.
-/

namespace SystemDesign.AdClick

open List hiding le_trans

/-- `str(ipaddress.ip_address(text))` of a short printable text is one too, and its own normal
form. -/
structure Settings.Lawful (e : Settings) : Prop where
  ip : ∀ text ip, isText text = true → e.ipAddress text = some ip → isText ip = true ∧ e.ipAddress ip = some ip

/-! ### Letters -/

theorem toUpper_alpha {c : Char} (h : c.isAlpha = true) :
    c.toUpper.isAlpha = true ∧ c.toUpper.toUpper = c.toUpper ∧ 32 ≤ c.toUpper.toNat := by
  rw [Char.isAlpha, Bool.or_eq_true] at h
  obtain h | h := h
  · have hkept : c.toUpper = c := by
      unfold Char.toUpper
      rw [dif_neg]
      simp only [Char.isUpper, ge_iff_le, decide_eq_true_eq] at h
      rintro ⟨hle, -⟩
      have hlow : (97 : UInt32).toNat ≤ c.val.toNat := hle
      have hhigh : c.val.toNat ≤ (90 : UInt32).toNat := h.2
      exact absurd (hlow.trans hhigh) (by decide)
    rw [hkept, hkept]
    refine ⟨by rw [Char.isAlpha, h, Bool.true_or], rfl, ?_⟩
    simp only [Char.isUpper, ge_iff_le, decide_eq_true_eq] at h
    have hlow : (65 : UInt32).toNat ≤ c.val.toNat := h.1
    exact le_trans (by decide) hlow
  · have hall : ∀ n : ℕ, 97 ≤ n → n ≤ 122 → (Char.ofNat n).toUpper.isAlpha = true ∧
        (Char.ofNat n).toUpper.toUpper = (Char.ofNat n).toUpper ∧ 32 ≤ (Char.ofNat n).toUpper.toNat := by
      intro n hlow hhigh
      interval_cases n <;> decide
    simp only [Char.isLower, ge_iff_le, Bool.and_eq_true, decide_eq_true_eq] at h
    have hlow : (97 : UInt32).toNat ≤ c.val.toNat := h.1
    have hhigh : c.val.toNat ≤ (122 : UInt32).toNat := h.2
    have := hall c.toNat hlow hhigh
    rw [Char.ofNat_toNat] at this
    exact this

theorem upper_country {country : String} (h : isCountry country = true) :
    isText (upper country) = true ∧ isCountry (upper country) = true ∧ upper (upper country) = upper country := by
  simp only [isCountry, Bool.and_eq_true, decide_eq_true_eq, all_eq_true] at h
  obtain ⟨hlength, halpha⟩ := h
  have htext : (upper country).toList = country.toList.map Char.toUpper := by simp [upper]
  have hlen : (upper country).length = 2 := by
    rw [← String.length_toList, htext, length_map, String.length_toList, hlength]
  have hmem : ∀ c ∈ (upper country).toList, c.isAlpha = true ∧ c.toUpper = c ∧ 32 ≤ c.toNat := by
    intro c hc
    rw [htext] at hc
    obtain ⟨c', hc', rfl⟩ := mem_map.mp hc
    exact toUpper_alpha (halpha c' hc')
  refine ⟨?_, ?_, ?_⟩
  · simp only [isText, Bool.and_eq_true, decide_eq_true_eq, all_eq_true, hlen]
    exact ⟨by decide, fun c hc => (hmem c hc).2.2⟩
  · simp only [isCountry, Bool.and_eq_true, decide_eq_true_eq, all_eq_true]
    exact ⟨hlen, fun c hc => (hmem c hc).1⟩
  · have hmap : (upper country).toList.map Char.toUpper = (upper country).toList := by
      conv_rhs => rw [← List.map_id (upper country).toList]
      exact map_congr_left fun c hc => (hmem c hc).2.1
    rw [upper, hmap]
    exact String.ofList_toList

/-! ### Reading an event back -/

theorem toJson_nodup (v : Event) : ([("event_id", Json.str v.eventId), ("ad_id", .str v.adId),
    ("click_timestamp", .int v.clickTimestamp), ("user_id", .str v.userId), ("ip", .str v.ip),
    ("country", .str v.country)].map Prod.fst).Nodup := by
  simp only [map_cons, map_nil]
  decide

theorem toJson_wf (v : Event) : v.toJson.WF :=
  ⟨toJson_nodup v, trivial, trivial, trivial, trivial, trivial, trivial, trivial⟩

theorem get?_toJson (v : Event) (key : String) :
    v.toJson.sortKeys.get? key = ([("event_id", Json.str v.eventId), ("ad_id", .str v.adId),
      ("click_timestamp", .int v.clickTimestamp), ("user_id", .str v.userId), ("ip", .str v.ip),
      ("country", .str v.country)].lookup key).map Json.sortKeys :=
  Json.get?_sortKeys (toJson_nodup v) key

theorem hasFields_toJson (v : Event) : hasFields v.toJson.sortKeys = true := by
  have hkeys : ∃ keys, v.toJson.sortKeys.keys? = some keys ∧ keys.Perm
      ["event_id", "ad_id", "click_timestamp", "user_id", "ip", "country"] := by
    refine ⟨_, rfl, ?_⟩
    exact (Json.sortByKey_perm _).map Prod.fst
  obtain ⟨keys, hkeys, hperm⟩ := hkeys
  unfold hasFields
  rw [hkeys]
  simp only [Bool.and_eq_true, all_eq_true, contains_iff_mem]
  refine ⟨fun k hk => ?_, fun k hk => ?_⟩
  · exact hperm.mem_iff.mp hk
  · exact hperm.mem_iff.mpr hk

variable {v : Event} {body : Json} {e : Settings} {limit : ℤ}

/-- What an accepted body says of the event. -/
theorem event_spec (h : event e body limit = .ok v) :
    isText v.eventId = true ∧ isText v.adId = true ∧ isText v.userId = true ∧
      0 ≤ v.clickTimestamp ∧ v.clickTimestamp ≤ limit ∧ (∃ ip, isText ip = true ∧ e.ipAddress ip = some v.ip) ∧
      ∃ country, isCountry country = true ∧ v.country = upper country := by
  have htext : ∀ {value : Option Json} {name s : String}, text value name = .ok s → isText s = true := by
    intro value name s hs
    unfold text at hs
    split at hs
    · split at hs
      · rename_i hok
        cases hs
        exact hok
      · cases hs
    · cases hs
  unfold event at h
  replace h := of_check h
  obtain ⟨eventId, heventId, h⟩ := of_bind h
  obtain ⟨adId, hadId, h⟩ := of_bind h
  obtain ⟨userId, huserId, h⟩ := of_bind h
  obtain ⟨ip, hiptext, h⟩ := of_bind h
  obtain ⟨country, -, h⟩ := of_bind h
  obtain ⟨clickTimestamp, hclick, h⟩ := of_bind h
  split at h
  · cases h
  · rename_i ip' hip
    obtain ⟨_, hcountry, h⟩ := of_bind h
    obtain rfl := Except.ok.inj h
    have hrange : 0 ≤ clickTimestamp ∧ clickTimestamp ≤ limit := by
      unfold integer at hclick
      split at hclick
      · split at hclick
        · rename_i hok
          cases hclick
          exact hok
        · cases hclick
      · cases hclick
    exact ⟨htext heventId, htext hadId, htext huserId, hrange.1, hrange.2, ⟨ip, htext hiptext, hip⟩, country,
      require_eq_ok.mp hcountry, rfl⟩

variable {limit' : ℤ}

/-- A body with the fields of an event in normal form is that event. -/
theorem event_normal (he : e.Lawful) (h : event e body limit = .ok v) (hlimit : v.clickTimestamp ≤ limit')
    {body' : Json} (hfields : hasFields body' = true)
    (hget : ∀ key s, [("event_id", Json.str v.eventId), ("ad_id", .str v.adId),
      ("click_timestamp", .int v.clickTimestamp), ("user_id", .str v.userId), ("ip", .str v.ip),
      ("country", .str v.country)].lookup key = some (.str s) → body'.get? key = some (.str s))
    (hclick : body'.get? "click_timestamp" = some (.int v.clickTimestamp)) : event e body' limit' = .ok v := by
  obtain ⟨heventId, hadId, huserId, hlow, -, ⟨ip, hipgiven, hip⟩, country, hcountry, hupper⟩ := event_spec h
  obtain ⟨hiptext, hipnormal⟩ := he.ip ip v.ip hipgiven hip
  obtain ⟨hctext, hcountry', hcupper⟩ := upper_country hcountry
  rw [← hupper] at hctext hcountry' hcupper
  have htext : ∀ key s, body'.get? key = some (.str s) → isText s = true → text (body'.get? key) key = .ok s := by
    intro key s hs hok
    rw [hs]
    exact if_pos hok
  have hinteger : integer (body'.get? "click_timestamp") "click_timestamp" 0 limit' = .ok v.clickTimestamp := by
    rw [hclick]
    exact if_pos ⟨hlow, hlimit⟩
  unfold event
  rw [htext "event_id" v.eventId (hget _ _ rfl) heventId, htext "ad_id" v.adId (hget _ _ rfl) hadId,
    htext "user_id" v.userId (hget _ _ rfl) huserId, htext "ip" v.ip (hget _ _ rfl) hiptext,
    htext "country" v.country (hget _ _ rfl) hctext, hinteger]
  simp only [require, hfields, if_true, bind, Except.bind, hipnormal, hcountry', hcupper, pure, Except.pure]

/-- An event in normal form, written and read back. -/
theorem event_sortKeys (he : e.Lawful) (h : event e body limit = .ok v) (hlimit : v.clickTimestamp ≤ limit') :
    event e v.toJson.sortKeys limit' = .ok v := by
  apply event_normal he h hlimit (hasFields_toJson v)
  · intro key s hs
    rw [get?_toJson, hs]
    rfl
  · rw [get?_toJson]
    rfl

theorem event_toJson (he : e.Lawful) (h : event e body limit = .ok v) (hlimit : v.clickTimestamp ≤ limit') :
    event e v.toJson limit' = .ok v :=
  event_normal he h hlimit rfl (fun _ _ hs => hs) rfl

end SystemDesign.AdClick
