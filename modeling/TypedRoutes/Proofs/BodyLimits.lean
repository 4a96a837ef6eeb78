import TypedRoutes.Http.Service
import TypedRoutes.Proofs.DecimalTexts
import TypedRoutes.Proofs.Results
import TypedRoutes.Proofs.SettingsOverlays

/-!
# The body limit

The limits that settings accept are the 64-bit words.  A service asks for one byte more than its
limit, so that a body which is too long is seen to be so, and this number is a 64-bit word as well.
The limit is exact as long as there is one byte more: for the largest word there is none, and every
body is lost.
-/

namespace TypedRoutes

variable {n : Nat}

/-! ## Sizes are words -/

namespace SettingValue

theorem lt_of_sizeOf {i : Int} (h : sizeOf i = .ok (.number n)) : n < 2 ^ 64 := by
  unfold sizeOf at h
  split at h
  · rename_i hrange
    obtain rfl := SizeSetting.number.inj (Except.ok.inj h)
    have hpow : Int.pow 2 64 = 18446744073709551616 := by decide
    omega
  · cases h

theorem lt_of_plainSize {raw : String} (h : plainSize raw = .ok (.number n)) : n < 2 ^ 64 := by
  unfold plainSize at h
  split at h
  · cases h
  · split at h
    · exact lt_of_sizeOf h
    · split at h
      · cases h
      · cases h

theorem lt_of_taggedSize
    {tag raw : String} (h : taggedSize tag raw = .ok (.number n)) : n < 2 ^ 64 := by
  unfold taggedSize at h
  split at h
  · split at h
    · exact lt_of_sizeOf h
    · cases h
  · split at h
    · cases h
    · cases h

theorem lt_of_asSize
    {scalar : Markup.Scalar} (h : asSize scalar = .ok (some (.number n))) : n < 2 ^ 64 := by
  obtain ⟨absent, -, h⟩ := Results.bind_eq_ok_iff.mp h
  cases absent with
  | true => cases h
  | false =>
      cases htag : scalar.tag with
      | some tag =>
          simp only [htag] at h
          obtain ⟨size, hsize, h⟩ := Results.bind_eq_ok_iff.mp h
          obtain rfl := Option.some.inj (Except.ok.inj h)
          exact lt_of_taggedSize hsize
      | none =>
          simp only [htag] at h
          cases hplain : scalar.isPlain with
          | true =>
              simp only [hplain] at h
              obtain ⟨size, hsize, h⟩ := Results.bind_eq_ok_iff.mp h
              obtain rfl := Option.some.inj (Except.ok.inj h)
              exact lt_of_plainSize hsize
          | false =>
              simp only [hplain] at h
              cases h

end SettingValue

theorem lt_of_readSize? {raw : String} (h : readSize? raw = some n) : n < 2 ^ 64 := by
  unfold readSize? at h
  split at h
  · exact of_decide_eq_true (Option.filter_eq_some_iff.mp h).2
  · exact of_decide_eq_true (Option.filter_eq_some_iff.mp h).2
  · exact of_decide_eq_true (Option.filter_eq_some_iff.mp h).2

/-- A word is read back from its decimal text. -/
theorem readSize?_toString (h : n < 2 ^ 64) : readSize? (toString n) = some n := by
  have hdigits := denotes_toDigits n
  have htext : (toString n).toList = Nat.toDigits 10 n := Nat.toList_repr
  unfold readSize?
  rw [htext, Text.strip_of_forall fun c hc => Text.isBlank_of_isDigit (hdigits.isDigit c hc)]
  split
  · rename_i hhex
    have hmark : 'x'.isDigit = true := hdigits.isDigit _ (by simp [hhex])
    cases hmark
  · rename_i hhex
    have hmark : 'X'.isDigit = true := hdigits.isDigit _ (by simp [hhex])
    cases hmark
  · rw [Numeral.word?, Numeral.nat?_of_denotes hdigits]
    exact Option.filter_eq_some_iff.mpr ⟨rfl, decide_eq_true h⟩

/-! ## Accepted limits -/

namespace SettingsOverlay

variable {o : SettingsOverlay}

theorem lt_of_setting
    {pairs : List (String × Markup.Scalar)} {name : String}
    (h : setting pairs SettingValue.asSize name = .ok (some (.number n))) : n < 2 ^ 64 := by
  unfold setting at h
  split at h
  · exact SettingValue.lt_of_asSize (Results.mapError_eq_ok_iff.mp h)
  · cases h

theorem lt_of_ofPairs
    {pairs : List (String × Markup.Scalar)} (h : ofPairs pairs = .ok o)
    (hn : o.maxBodyBytes = some (.number n)) : n < 2 ^ 64 := by
  unfold ofPairs at h
  extract_lets keys at h
  split at h
  · obtain ⟨bind, -, h⟩ := Results.bind_eq_ok_iff.mp h
    obtain ⟨stackSize, -, h⟩ := Results.bind_eq_ok_iff.mp h
    obtain ⟨docsPath, -, h⟩ := Results.bind_eq_ok_iff.mp h
    obtain ⟨maxBodyBytes, hsetting, h⟩ := Results.bind_eq_ok_iff.mp h
    obtain rfl := Except.ok.inj h
    obtain rfl : maxBodyBytes = some (.number n) := hn
    exact lt_of_setting hsetting
  · cases h

theorem lt_of_ofFile
    {text : String} (h : ofFile text = .ok o) (hn : o.maxBodyBytes = some (.number n)) :
    n < 2 ^ 64 := by
  unfold ofFile at h
  split at h
  · exact lt_of_ofPairs h hn
  · cases h

end SettingsOverlay

namespace SettingsCall

variable {call : SettingsCall} {s : ServiceSettings}

theorem number_lt_of_overlay
    {o : SettingsOverlay} (h : call.overlay? = .ok o) (hn : o.maxBodyBytes = some (.number n)) :
    n < 2 ^ 64 := by
  rcases call with (_ | text) | lookup
  · cases h
  · exact SettingsOverlay.lt_of_ofFile h hn
  · obtain rfl := Except.ok.inj h
    obtain ⟨raw, -, hraw⟩ := Option.map_eq_some_iff.mp hn
    cases hraw

theorem lt_of_written?
    (h : call.written? .maxBodyBytes = some (.size n)) : n < 2 ^ 64 := by
  unfold written? at h
  split at h
  · rename_i o hoverlay
    unfold SettingsOverlay.written? at h
    split at h
    · obtain ⟨size, hsize, hn⟩ := Option.map_eq_some_iff.mp h
      obtain rfl := SettingContent.size.inj hn
      obtain ⟨given, hgiven, hvalue⟩ := Option.bind_eq_some_iff.mp hsize
      cases given with
      | number n =>
          obtain rfl := Option.some.inj hvalue
          exact number_lt_of_overlay hoverlay hgiven
      | text raw => exact lt_of_readSize? hvalue
    · cases h
  · cases h

/-- A call leaves the limit a word. -/
theorem maxBodyBytes_run_lt
    (call : SettingsCall) (h : s.maxBodyBytes < 2 ^ 64) :
    (call.run s).1.maxBodyBytes < 2 ^ 64 := by
  have hcontent := call.content_run s .maxBodyBytes
  cases hwritten : call.written? .maxBodyBytes with
  | none =>
      rw [hwritten] at hcontent
      rwa [SettingContent.size.inj hcontent]
  | some content =>
      rw [hwritten] at hcontent
      obtain rfl : .size (call.run s).1.maxBodyBytes = content := hcontent
      exact lt_of_written? hwritten

theorem maxBodyBytes_runAll_lt
    (calls : List SettingsCall) (h : s.maxBodyBytes < 2 ^ 64) :
    (runAll s calls).maxBodyBytes < 2 ^ 64 := by
  induction calls generalizing s with
  | nil => exact h
  | cons call rest ih => exact ih (call.maxBodyBytes_run_lt h)

/-- The environment with a limit. -/
def ofLimit (limit : Nat) : SettingsCall :=
  ofVariables [("METAROUTE_MAX_BODY_BYTES", toString limit)]

theorem overlay?_ofLimit
    (limit : Nat) :
    (ofLimit limit).overlay? =
      .ok ⟨.environment, none, none, none, some (.text (toString limit))⟩ := by
  have hbind : SettingsSource.environment.key "bind" = "METAROUTE_BIND" := by decide +kernel
  have hstack : SettingsSource.environment.key "stack_size" = "METAROUTE_STACK_SIZE" := by
    decide +kernel
  have hdocs : SettingsSource.environment.key "docs_path" = "METAROUTE_DOCS_PATH" := by
    decide +kernel
  have hbody : SettingsSource.environment.key "max_body_bytes" = "METAROUTE_MAX_BODY_BYTES" := by
    decide +kernel
  show Except.ok (SettingsOverlay.ofEnvironment _) = _
  simp [SettingsOverlay.ofEnvironment, hbind, hstack, hdocs, hbody, List.lookup_cons]

/-- Every word is accepted as a limit. -/
theorem run_ofLimit
    (h : n < 2 ^ 64) (hs : s.IsValid) :
    (ofLimit n).run s = ({ s with maxBodyBytes := n }, none) := by
  have hvalid : { s with maxBodyBytes := n }.fault? = none := hs
  rw [run_of_overlay (overlay?_ofLimit n)]
  simp only [SettingsOverlay.apply, SettingsOverlay.size, readSize?_toString h,
    Option.getD_none, hvalid]

end SettingsCall

/-! ## Bodies under a limit -/

namespace WireRequest

variable {limit : Nat}

theorem received_of_no_overflow
    (request : WireRequest) (h : limit + 1 < 2 ^ 64) :
    request.received limit = { request with body := request.body.take (limit + 1) } := by
  have hasked : (limit + 1) % Nat.pow 2 64 = limit + 1 := Nat.mod_eq_of_lt h
  rw [received, hasked]

theorem received_of_overflow
    (request : WireRequest) (h : limit + 1 = 2 ^ 64) :
    request.received limit = { request with body := [] } := by
  have hasked : (limit + 1) % Nat.pow 2 64 = 0 := by
    rw [h]
    rfl
  rw [received, hasked, List.take_zero]

/-- Without overflow, reading no further makes no difference. -/
theorem toCall_received
    (request : WireRequest) (fresh : RequestId) (h : limit + 1 < 2 ^ 64) :
    (request.received limit).toCall limit fresh = request.toCall limit fresh := by
  rw [request.received_of_no_overflow h]
  by_cases hlength : request.body.length ≤ limit
  · rw [List.take_of_length_le (by omega)]
  · have htaken : limit < (request.body.take (limit + 1)).length := by
      rw [List.length_take]
      omega
    unfold toCall
    rw [if_pos htaken, if_pos (Nat.lt_of_not_le hlength)]

theorem toCall_of_length_le
    (request : WireRequest) (fresh : RequestId) (hmethod : isToken request.method = true)
    (h : request.body.length ≤ limit) :
    request.toCall limit fresh =
      .ok (.ofTarget request.method request.target request.textHeaders request.body
        (.ofHeader (request.textHeaders.lookup "x-request-id") fresh)) := by
  rw [toCall, if_neg (by simp [hmethod]), if_neg (Nat.not_lt.mpr h)]

theorem toCall_of_lt_length
    (request : WireRequest) (fresh : RequestId) (hmethod : isToken request.method = true)
    (h : limit < request.body.length) :
    request.toCall limit fresh = .error (.bodyTooLong limit) := by
  rw [toCall, if_neg (by simp [hmethod]), if_pos h]

/-- The limit is exact for every limit that settings accept but the largest.  The accepted limits
are the 64-bit words.  Where there is a next word, a request with a method is accepted with its
body, whole, if the body is no longer than the limit, and refused if it is longer.  For the largest
word every request is accepted, and without a body. -/
theorem body_limit_exact_below_largest
    (calls : List SettingsCall) (hlimit : limit < 2 ^ 64) (request : WireRequest)
    (fresh : RequestId) (hmethod : isToken request.method = true) :
    (SettingsCall.runAll .default calls).maxBodyBytes < 2 ^ 64 ∧
    (∃ call : SettingsCall,
      call.run .default = ({ ServiceSettings.default with maxBodyBytes := limit }, none)) ∧
    (limit + 1 < 2 ^ 64 →
      (request.received limit).toCall limit fresh = request.toCall limit fresh ∧
      ((∃ call, (request.received limit).toCall limit fresh = .ok call ∧
          call.body = request.body) ↔ request.body.length ≤ limit) ∧
      ((request.received limit).toCall limit fresh = .error (.bodyTooLong limit) ↔
        limit < request.body.length)) ∧
    (limit + 1 = 2 ^ 64 →
      ∃ call, (request.received limit).toCall limit fresh = .ok call ∧ call.body = []) := by
  refine ⟨?_, ?_, ?_, ?_⟩
  · exact SettingsCall.maxBodyBytes_runAll_lt calls (by decide)
  · exact ⟨.ofLimit limit, SettingsCall.run_ofLimit hlimit ServiceSettings.default_isValid⟩
  · intro hnext
    have hread := request.toCall_received fresh hnext
    refine ⟨hread, ?_, ?_⟩
    · rw [hread]
      constructor
      · rintro ⟨call, hcall, -⟩
        by_contra hlength
        rw [request.toCall_of_lt_length fresh hmethod (Nat.lt_of_not_le hlength)] at hcall
        cases hcall
      · intro hlength
        exact ⟨_, request.toCall_of_length_le fresh hmethod hlength, rfl⟩
    · rw [hread]
      constructor
      · intro hrefused
        by_contra hlength
        rw [request.toCall_of_length_le fresh hmethod (Nat.le_of_not_lt hlength)] at hrefused
        cases hrefused
      · exact request.toCall_of_lt_length fresh hmethod
  · intro hlargest
    rw [request.received_of_overflow hlargest]
    exact ⟨_, toCall_of_length_le _ fresh hmethod (Nat.zero_le limit), rfl⟩

/-- A request with a body of five bytes. -/
def greeting : WireRequest :=
  ⟨"POST", "/greetings", [("Content-Type", "text/plain".toUTF8.toList)], "hello".toUTF8.toList⟩

/-- A body is accepted under a limit of its length and refused under the one before. -/
theorem body_limit_exact_below_largest_greeting :
    (∃ call, (greeting.received 5).toCall 5 ⟨0⟩ = .ok call ∧ call.body = greeting.body) ∧
      (greeting.received 4).toCall 4 ⟨0⟩ = .error (.bodyTooLong 4) := by
  have hmethod : isToken greeting.method = true := by decide +kernel
  have hlength : greeting.body.length = 5 := by decide +kernel
  obtain ⟨-, -, hfive, -⟩ :=
    body_limit_exact_below_largest [] (by decide : 5 < 2 ^ 64) greeting ⟨0⟩ hmethod
  obtain ⟨-, -, hfour, -⟩ :=
    body_limit_exact_below_largest [] (by decide : 4 < 2 ^ 64) greeting ⟨0⟩ hmethod
  obtain ⟨-, haccepted, -⟩ := hfive (by decide)
  obtain ⟨-, -, hrefused⟩ := hfour (by decide)
  exact ⟨haccepted.mpr hlength.le, hrefused.mpr (by rw [hlength]; decide)⟩

/-- A settings file may give the largest word, under which a body of five bytes is lost. -/
theorem largest_limit_loses_body :
    (SettingsCall.file (some "max_body_bytes: 18446744073709551615")).run .default =
        ({ ServiceSettings.default with maxBodyBytes := 18446744073709551615 }, none) ∧
      isToken greeting.method = true ∧ greeting.body.length = 5 ∧
      ∃ call, (greeting.received 18446744073709551615).toCall 18446744073709551615 ⟨0⟩ = .ok call ∧
        call.body = [] := by
  refine ⟨by decide +kernel, by decide +kernel, by decide +kernel, ?_⟩
  rw [greeting.received_of_overflow (by decide)]
  exact ⟨_, toCall_of_length_le _ _ (by decide +kernel) (Nat.zero_le _), rfl⟩

end WireRequest
end TypedRoutes
