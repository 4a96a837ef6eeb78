import Mathlib.Data.List.Forall2
import Mathlib.Data.List.Induction
import Mathlib.Data.List.Nodup
import Mathlib.Data.List.Perm.Subperm
import TypedRoutes.Http.Response

/-!
# Header lines over whole runs

All answers share one table of header lines, so what is written for an answer may depend on those
before it.  It does so in one way only: the table holds the first lines that are asked for, up to
its capacity, and of the lines that need a place exactly these are written, whenever they are asked
for.  A run that asks for no more lines than the table holds writes every answer as if it were the
first.
-/

namespace TypedRoutes
namespace HeaderLines

variable {table : HeaderLines} {asked later : List String} {line : String}

/-- The lines that get a place when some lines are asked for one after another. -/
def places (asked : List String) : List String :=
  asked.eraseDups.take capacity

theorem eraseDups_concat (asked : List String) (line : String) :
    (asked ++ [line]).eraseDups = asked.eraseDups ++ if line ∈ asked then [] else [line] := by
  rw [List.eraseDups_append]
  split
  · simp [List.removeAll, *]
  · simp [List.removeAll, *, List.eraseDups_cons]

theorem nodup_eraseDups (asked : List String) : asked.eraseDups.Nodup := by
  induction asked using List.reverseRecOn with
  | nil => exact List.nodup_nil
  | append_singleton asked line ih =>
      rw [eraseDups_concat]
      split
      · simpa using ih
      · rename_i hnew
        have hline : line ∉ asked.eraseDups := fun h => hnew (List.mem_eraseDups.mp h)
        simpa using ih.concat hline

theorem eraseDups_eq_of_nodup (h : asked.Nodup) : asked.eraseDups = asked := by
  induction asked using List.reverseRecOn with
  | nil => rfl
  | append_singleton asked line ih =>
      obtain ⟨hasked, -, hapart⟩ := List.nodup_append.mp h
      have hnew : line ∉ asked := fun hline => hapart line hline line (by simp) rfl
      rw [eraseDups_concat, ih hasked, if_neg hnew]

/-- A line that has a place keeps it. -/
theorem places_concat_of_mem (h : line ∈ places asked) :
    places (asked ++ [line]) = places asked := by
  have hasked : line ∈ asked := List.mem_eraseDups.mp (List.mem_of_mem_take h)
  rw [places, eraseDups_concat, if_pos hasked, List.append_nil, places]

/-- A full table stays as it is. -/
theorem places_concat_of_full (h : capacity ≤ (places asked).length) (line : String) :
    places (asked ++ [line]) = places asked := by
  rw [places, List.length_take, Nat.le_min] at h
  rw [places, eraseDups_concat, List.take_append_of_le_length h.2, places]

/-- As long as there is room a new line gets the next place. -/
theorem places_concat_of_room (h : (places asked).length < capacity) (hnew : line ∉ places asked) :
    places (asked ++ [line]) = places asked ++ [line] := by
  rw [places, List.length_take] at h
  have hshort : asked.eraseDups.length < capacity := by omega
  have hall : places asked = asked.eraseDups := List.take_of_length_le (Nat.le_of_lt hshort)
  have hline : line ∉ asked := by
    rwa [hall, List.mem_eraseDups] at hnew
  rw [hall, places, eraseDups_concat, if_neg hline]
  apply List.take_of_length_le
  rw [List.length_append, List.length_singleton]
  exact hshort

/-- Whether a line that was asked for has a place does not depend on what is asked for later. -/
theorem mem_places_append_iff (h : line ∈ asked) (later : List String) :
    line ∈ places (asked ++ later) ↔ line ∈ places asked := by
  have hlater : line ∉ (later.removeAll asked).eraseDups := by
    simp [List.mem_eraseDups, List.removeAll, h]
  rw [places, List.eraseDups_append, List.take_append, List.mem_append, places]
  exact or_iff_left fun hmem => hlater (List.mem_of_mem_take hmem)

/-- Every line has a place if no more of them are asked for than there are places. -/
theorem mem_places_of_length_le (h : asked.eraseDups.length ≤ capacity) (hline : line ∈ asked) :
    line ∈ places asked := by
  rw [places, List.take_of_length_le h]
  exact List.mem_eraseDups.mpr hline

/-- Lines that have places among others are few enough to have places by themselves. -/
theorem subset_places_of_subset {own : List String} (h : own ⊆ places asked) :
    own ⊆ places own := by
  intro line hline
  refine mem_places_of_length_le ?_ hline
  have hsubset : own.eraseDups ⊆ places asked := fun other hother =>
    h (List.mem_eraseDups.mp hother)
  calc own.eraseDups.length
      ≤ (places asked).length := ((nodup_eraseDups own).subperm hsubset).length_le
    _ ≤ capacity := List.length_take_le _ _

/-- A table that holds the places of the lines that were asked for gives a line exactly if it has a
place, and goes on to hold them. -/
theorem line?_eq (h : table.lines = places asked) (name value : String) :
    table.line? name value =
      (if name ++ ": " ++ value ∈ places (asked ++ [name ++ ": " ++ value]) then
        some (name ++ ": " ++ value) else none,
        ⟨places (asked ++ [name ++ ": " ++ value])⟩) := by
  generalize hline : name ++ ": " ++ value = line
  simp only [line?, hline, List.contains_iff_mem]
  have htable : table = ⟨places asked⟩ := by rw [← h]
  by_cases hmem : line ∈ places asked
  · simp [htable, hmem, places_concat_of_mem hmem]
  · by_cases hroom : (places asked).length < capacity
    · simp [htable, hmem, Nat.not_le.mpr hroom, places_concat_of_room hroom hmem]
    · have hfull := Nat.not_lt.mp hroom
      simp [htable, hmem, hfull, places_concat_of_full hfull]

end HeaderLines

namespace WireResponse

open HeaderLines (places)

variable {table : HeaderLines} {asked : List String}

/-- The headers that do not differ from answer to answer. -/
def sent (headers : Headers) : Headers :=
  headers.filter fun header => !isPerCall header.1

/-- Whether a header announces a JSON body.  Its line needs no place in the table. -/
def isJsonType (header : String × String) : Bool :=
  isContentType header.1 && header.2 == "application/json"

/-- The line of a header; a JSON content type has one spelling. -/
def headerLine (header : String × String) : String :=
  if isJsonType header then jsonLine else header.1 ++ ": " ++ header.2

/-- The lines that need a place in the table. -/
def tabled (headers : Headers) : List String :=
  ((sent headers).filter fun header => !isJsonType header).map headerLine

/-- The header can be written if some lines have a place. -/
def HasPlace (kept : List String) (header : String × String) : Prop :=
  isJsonType header = true ∨ headerLine header ∈ kept

instance (kept : List String) : DecidablePred (HasPlace kept) := fun header =>
  inferInstanceAs (Decidable (isJsonType header = true ∨ headerLine header ∈ kept))

/-- The lines of headers that can be written if some lines have a place. -/
def linesWithin (kept : List String) (headers : Headers) : List String :=
  ((sent headers).filter (HasPlace kept ·)).map headerLine

/-- The answer as it is written if some lines have a place. -/
def within (kept : List String) (response : Response) : WireResponse where
  status := response.status
  headerLines := linesWithin kept response.headers ++
    if response.headers.any (isContentType ·.1) then [] else [jsonLine]
  body := response.body

/-- Answers written one after another, and the table afterwards. -/
def writeAll : HeaderLines → List Response → List WireResponse × HeaderLines
  | table, [] => ([], table)
  | table, response :: rest =>
    let (written, table) := ofResponse response table
    let (others, table) := writeAll table rest
    (written :: others, table)

/-! ## One answer -/

section Cons

variable {name value : String} {rest : Headers} {kept : List String}

theorem sent_cons_of_perCall (h : isPerCall name = true) :
    sent ((name, value) :: rest) = sent rest := by
  simp [sent, h]

theorem sent_cons (h : isPerCall name = false) :
    sent ((name, value) :: rest) = (name, value) :: sent rest := by
  simp [sent, h]

theorem tabled_cons_of_json
    (h : isPerCall name = false) (hjson : isJsonType (name, value) = true) :
    tabled ((name, value) :: rest) = tabled rest := by
  simp [tabled, sent_cons h, hjson]

theorem tabled_cons (h : isPerCall name = false) (hjson : isJsonType (name, value) = false) :
    tabled ((name, value) :: rest) = headerLine (name, value) :: tabled rest := by
  simp [tabled, sent_cons h, hjson]

theorem linesWithin_cons (h : isPerCall name = false) :
    linesWithin kept ((name, value) :: rest) =
      (if HasPlace kept (name, value) then [headerLine (name, value)] else []) ++
        linesWithin kept rest := by
  rw [linesWithin, sent_cons h, List.filter_cons, linesWithin]
  by_cases hplace : HasPlace kept (name, value)
  · simp [hplace]
  · simp [hplace]

end Cons

/-- The headers of an answer are written as far as their lines have a place, and those that need one
are asked for. -/
theorem writeHeaders_eq
    (headers : Headers) (h : table.lines = places asked) (later : List String) :
    writeHeaders table headers =
      (linesWithin (places (asked ++ tabled headers ++ later)) headers,
        ⟨places (asked ++ tabled headers)⟩) := by
  induction headers generalizing table asked with
  | nil => simp [writeHeaders, linesWithin, sent, tabled, ← h]
  | cons header rest ih =>
      obtain ⟨name, value⟩ := header
      cases hcall : isPerCall name with
      | true =>
          rw [writeHeaders, if_pos hcall, ih h, linesWithin, linesWithin, tabled, tabled,
            sent_cons_of_perCall hcall]
      | false =>
          cases hjson : isJsonType (name, value) with
          | true =>
              have hline : headerLine (name, value) = jsonLine := if_pos hjson
              rw [linesWithin_cons hcall, if_pos (.inl hjson), hline,
                tabled_cons_of_json hcall hjson]
              rw [isJsonType] at hjson
              simp [writeHeaders, hcall, hjson, ih h]
          | false =>
              have hline : headerLine (name, value) = name ++ ": " ++ value :=
                if_neg (by rw [hjson]; exact Bool.false_ne_true)
              have hlist : asked ++ tabled ((name, value) :: rest) =
                  asked ++ [name ++ ": " ++ value] ++ tabled rest := by
                simp [tabled_cons hcall hjson, hline]
              -- what is asked for after the line makes no difference to it
              have hplace : HasPlace (places (asked ++ tabled ((name, value) :: rest) ++ later))
                  (name, value) ↔
                  name ++ ": " ++ value ∈ places (asked ++ [name ++ ": " ++ value]) := by
                rw [HasPlace, hjson, hline, hlist, List.append_assoc,
                  HeaderLines.mem_places_append_iff (by simp)]
                simp
              have hrest := @ih ⟨places (asked ++ [name ++ ": " ++ value])⟩ _ rfl
              rw [← hlist] at hrest
              rw [isJsonType] at hjson
              rw [writeHeaders, if_neg (by simp [hcall]), hjson, linesWithin_cons hcall, hline]
              simp only [Bool.false_eq_true, if_false, HeaderLines.line?_eq h, hrest, hplace]
              split
              · rfl
              · rfl

/-- An answer is written as far as its lines have a place, also if more is asked for later. -/
theorem ofResponse_eq
    (response : Response) (h : table.lines = places asked) (later : List String) :
    ofResponse response table =
      (within (places (asked ++ tabled response.headers ++ later)) response,
        ⟨places (asked ++ tabled response.headers)⟩) := by
  simp only [ofResponse, writeHeaders_eq response.headers h later, within]
  split <;> simp

/-! ## Runs -/

/-- The lines that need a place in the course of a run. -/
def asks (responses : List Response) : List String :=
  responses.flatMap fun response => tabled response.headers

theorem writeAll_eq
    (responses : List Response) (h : table.lines = places asked) (later : List String) :
    writeAll table responses =
      (responses.map (within (places (asked ++ asks responses ++ later))),
        ⟨places (asked ++ asks responses)⟩) := by
  induction responses generalizing table asked with
  | nil => simp [writeAll, asks, ← h]
  | cons response rest ih =>
      have hasks : asks (response :: rest) = tabled response.headers ++ asks rest := rfl
      have hthis := ofResponse_eq response h (asks rest ++ later)
      have hrest := @ih ⟨places (asked ++ tabled response.headers)⟩ _ rfl
      simp only [writeAll, hthis, hrest, hasks, List.map_cons, List.append_assoc]

/-- In a run from the empty table every answer is written within the lines that get a place. -/
theorem writeAll_empty (responses : List Response) :
    (writeAll .empty responses).1 = responses.map (within (places (asks responses))) := by
  have hempty : HeaderLines.empty.lines = places [] := rfl
  have h := writeAll_eq responses hempty []
  rw [h, List.nil_append, List.append_nil]

/-- A line that announces the kind of the body. -/
def IsContentTypeLine (line : String) : Prop :=
  ∃ name value, isContentType name = true ∧ line = name ++ ": " ++ value

/-- The answer is written with all its headers and with a content type, as it is for itself. -/
structure WrittenWhole (response : Response) (wire : WireResponse) : Prop where
  lines : ∃ closing, (closing = [] ∨ closing = [jsonLine]) ∧
    wire.headerLines = (sent response.headers).map headerLine ++ closing
  contentType : ∃ line ∈ wire.headerLines, IsContentTypeLine line
  alone : wire = (ofResponse response .empty).1

theorem isContentTypeLine_headerLine
    {header : String × String} (h : isContentType header.1 = true) :
    IsContentTypeLine (headerLine header) := by
  rw [headerLine]
  split
  · exact ⟨"Content-Type", "application/json", by decide, rfl⟩
  · exact ⟨header.1, header.2, h, rfl⟩

theorem isPerCall_of_isContentType {name : String} (h : isContentType name = true) :
    isPerCall name = false := by
  have hname : Text.lowerAscii name = Text.lowerAscii "content-type" := by
    simpa [isContentType, Headers.sameName] using h
  simp only [isPerCall, Headers.sameName, hname]
  decide

/-- The headers whose lines have a place are all that are sent if every line has one. -/
theorem linesWithin_of_subset
    {headers : Headers} {kept : List String} (h : tabled headers ⊆ kept) :
    linesWithin kept headers = (sent headers).map headerLine := by
  rw [linesWithin, List.filter_eq_self.mpr]
  intro header hheader
  rw [decide_eq_true_eq, HasPlace]
  cases hjson : isJsonType header with
  | true => exact .inl rfl
  | false =>
      refine .inr (h ?_)
      exact List.mem_map_of_mem (List.mem_filter.mpr ⟨hheader, by simp [hjson]⟩)

theorem writtenWhole_within
    {response : Response} (h : tabled response.headers ⊆ places asked) :
    WrittenWhole response (within (places asked) response) := by
  have hlines := linesWithin_of_subset h
  refine ⟨⟨_, ?_, congrArg (· ++ _) hlines⟩, ?_, ?_⟩
  · split
    · exact .inl rfl
    · exact .inr rfl
  · cases hany : response.headers.any (isContentType ·.1) with
    | true =>
        obtain ⟨header, hheader, htype⟩ := List.any_eq_true.mp hany
        have hsent : header ∈ sent response.headers :=
          List.mem_filter.mpr ⟨hheader, by simp [isPerCall_of_isContentType htype]⟩
        refine ⟨headerLine header, ?_, isContentTypeLine_headerLine htype⟩
        simp only [within, hlines]
        exact List.mem_append_left _ (List.mem_map_of_mem hsent)
    | false =>
        refine ⟨jsonLine, ?_, "Content-Type", "application/json", by decide, rfl⟩
        simp [within, hany]
  · have hown := HeaderLines.subset_places_of_subset h
    have hempty : HeaderLines.empty.lines = places [] := rfl
    have halone := congrArg Prod.fst (ofResponse_eq response hempty [])
    rw [List.nil_append, List.append_nil] at halone
    rw [halone, within, within, hlines, linesWithin_of_subset hown]

/-- In a run of answers the first lines that need a place in the table get one, up to its capacity,
and every answer is written with exactly those of its headers whose lines have a place, in order,
and with the JSON line at the end if none of its headers announces the kind of the body.  So an
answer all of whose lines have a place is written whole, and as if it were the first; and if the run
asks for no more lines than there are places, then every answer is. -/
theorem header_lines_of_run (responses : List Response) :
    List.Forall₂
      (fun response wire =>
        (∃ closing, (closing = [] ∨ closing = [jsonLine]) ∧
          wire.headerLines = linesWithin (places (asks responses)) response.headers ++ closing ∧
          ((∀ header ∈ response.headers, isContentType header.1 = false) → closing = [jsonLine]) ∧
          ∀ header ∈ response.headers, isContentType header.1 = true →
            HasPlace (places (asks responses)) header → closing = []) ∧
        (tabled response.headers ⊆ places (asks responses) → WrittenWhole response wire))
      responses (writeAll .empty responses).1 ∧
    ((asks responses).eraseDups.length ≤ HeaderLines.capacity →
      List.Forall₂ WrittenWhole responses (writeAll .empty responses).1) := by
  rw [writeAll_empty, List.forall₂_map_right_iff, List.forall₂_map_right_iff, List.forall₂_same,
    List.forall₂_same]
  constructor
  · intro response _
    refine ⟨⟨_, ?_, rfl, ?_, ?_⟩, writtenWhole_within⟩
    · split
      · exact .inl rfl
      · exact .inr rfl
    · intro hnone
      rw [if_neg]
      simpa using fun name value => hnone (name, value)
    · intro header hheader htype _
      have hany : response.headers.any (isContentType ·.1) = true :=
        List.any_eq_true.mpr ⟨header, hheader, htype⟩
      simp [hany]
  · intro hlength response hresponse
    refine writtenWhole_within fun line hline => ?_
    exact HeaderLines.mem_places_of_length_le hlength
      (List.mem_flatMap.mpr ⟨response, hresponse, hline⟩)

/-! ## Pages of links -/

/-- A link to an item. -/
def link (id : Nat) : String × String :=
  ("link", "/items/" ++ toString id)

/-- The answer with a page of items, each of which has a link of its own. -/
def page (ids : List Nat) : Response :=
  { Response.success .null with headers := ("content-type", "application/json") :: ids.map link }

/-- The line with the link to an item. -/
def linkLine (id : Nat) : String :=
  "link: /items/" ++ toString id

theorem isPerCall_page : isPerCall "content-type" = false ∧ isPerCall "link" = false := by
  decide

theorem isJsonType_link (id : Nat) : isJsonType (link id) = false := by
  have hname : isContentType "link" = false := by decide
  rw [isJsonType, link, hname, Bool.false_and]

theorem headerLine_link (id : Nat) : headerLine (link id) = linkLine id := by
  rw [headerLine, isJsonType_link, if_neg Bool.false_ne_true, link, ← String.append_assoc]
  rfl

theorem hasPlace_link_iff {kept : List String} {id : Nat} :
    HasPlace kept (link id) ↔ linkLine id ∈ kept := by
  rw [HasPlace, isJsonType_link, headerLine_link]
  simp

theorem tabled_links (ids : List Nat) : tabled (ids.map link) = ids.map linkLine := by
  induction ids with
  | nil => rfl
  | cons id ids ih =>
      have hcons : tabled (link id :: ids.map link) =
          headerLine (link id) :: tabled (ids.map link) :=
        tabled_cons isPerCall_page.2 (isJsonType_link id)
      rw [List.map_cons, hcons, ih, headerLine_link, List.map_cons]

theorem linesWithin_links (kept : List String) (ids : List Nat) :
    linesWithin kept (ids.map link) = (ids.map linkLine).filter (· ∈ kept) := by
  induction ids with
  | nil => rfl
  | cons id ids ih =>
      have hcons : linesWithin kept (link id :: ids.map link) =
          (if HasPlace kept (link id) then [headerLine (link id)] else []) ++
            linesWithin kept (ids.map link) :=
        linesWithin_cons isPerCall_page.2
      rw [List.map_cons, hcons, ih, headerLine_link, List.map_cons, List.filter_cons]
      by_cases hkept : linkLine id ∈ kept
      · rw [if_pos (hasPlace_link_iff.mpr hkept), if_pos (decide_eq_true hkept),
          List.singleton_append]
      · rw [if_neg (hasPlace_link_iff.not.mpr hkept), if_neg (by simpa using hkept),
          List.nil_append]

theorem tabled_page (ids : List Nat) : tabled (page ids).headers = ids.map linkLine := by
  rw [page, tabled_cons_of_json isPerCall_page.1 (by decide), tabled_links]

theorem headerLines_within_page (kept : List String) (ids : List Nat) :
    (within kept (page ids)).headerLines = jsonLine :: (ids.map linkLine).filter (· ∈ kept) := by
  have hany : (page ids).headers.any (isContentType ·.1) = true := by
    rw [page, List.any_cons, Bool.or_eq_true]
    exact .inl (by decide)
  have hline : headerLine ("content-type", "application/json") = jsonLine := if_pos (by decide)
  rw [within, hany, page, linesWithin_cons isPerCall_page.1, if_pos (.inl (by decide)), hline,
    linesWithin_links]
  simp

theorem asks_pages (pages : List (List Nat)) :
    asks (pages.map page) = pages.flatten.map linkLine := by
  rw [asks, List.flatMap_map, List.map_flatten, ← List.flatMap_def]
  simp only [tabled_page]

theorem linkLine_injective : Function.Injective linkLine := by
  intro id id' h
  have hdigits : Nat.toDigits 10 id = Nat.toDigits 10 id' :=
    String.ofList_injective ((String.append_right_inj _).mp h)
  rw [← @Nat.ofDigitChars_ten_toDigits id, hdigits, Nat.ofDigitChars_ten_toDigits]

/-- Two pages fit into the table, and the second one is written whole. -/
theorem header_lines_of_run_two_pages :
    ∃ first second, (writeAll .empty [page [1, 2], page [2, 3]]).1 = [first, second] ∧
      WrittenWhole (page [2, 3]) second := by
  have hasks : asks [page [1, 2], page [2, 3]] = [1, 2, 2, 3].map linkLine :=
    asks_pages [[1, 2], [2, 3]]
  have hlength : (asks [page [1, 2], page [2, 3]]).eraseDups.length ≤ HeaderLines.capacity := by
    rw [hasks]
    decide +kernel
  have hwhole := (header_lines_of_run [page [1, 2], page [2, 3]]).2 hlength
  generalize (writeAll .empty [page [1, 2], page [2, 3]]).1 = wires at hwhole
  obtain _ | ⟨-, _ | ⟨hsecond, ⟨⟩⟩⟩ := hwhole
  exact ⟨_, _, rfl, hsecond⟩

/-- Pages of eleven items each. -/
def pagesOfEleven (n : Nat) : List (List Nat) :=
  (List.range n).map fun k => List.range' (11 * k) 11

theorem flatten_pagesOfEleven (n : Nat) : (pagesOfEleven n).flatten = List.range (11 * n) := by
  induction n with
  | zero => rfl
  | succ n ih =>
      rw [pagesOfEleven, List.range_succ, List.map_append, List.map_singleton, List.flatten_append,
        ← pagesOfEleven, ih, List.flatten_singleton, Nat.mul_succ, List.range_add,
        List.range'_eq_map_range]

/-- In a run of 94 pages with eleven links each, the table is full before the last link is written,
which it would be if the last page were the first. -/
theorem link_left_out_of_full_table :
    ∃ last wire,
      ((pagesOfEleven 94).map page).getLast? = some last ∧
      (writeAll .empty ((pagesOfEleven 94).map page)).1.getLast? = some wire ∧
      link 1033 ∈ sent last.headers ∧ headerLine (link 1033) ∉ wire.headerLines ∧
      headerLine (link 1033) ∈ (ofResponse last .empty).1.headerLines := by
  have hplaces : places (asks ((pagesOfEleven 94).map page)) = (List.range 1024).map linkLine := by
    have hnodup := (@List.nodup_range (11 * 94)).map linkLine_injective
    rw [asks_pages, flatten_pagesOfEleven, places, HeaderLines.eraseDups_eq_of_nodup hnodup,
      ← List.map_take, List.take_range]
    rfl
  have hnew : linkLine 1033 ∉ (List.range 1024).map linkLine := by
    intro hmem
    obtain ⟨id, hid, heq⟩ := List.mem_map.mp hmem
    obtain rfl := linkLine_injective heq
    exact absurd (List.mem_range.mp hid) (by decide)
  have hlast : (pagesOfEleven 94).getLast? = some (List.range' 1023 11) := by
    rw [pagesOfEleven, List.range_succ, List.map_append]
    exact List.getLast?_concat
  refine ⟨page (List.range' 1023 11), within ((List.range 1024).map linkLine)
    (page (List.range' 1023 11)), ?_, ?_, ?_, ?_, ?_⟩
  · rw [List.getLast?_map, hlast, Option.map_some]
  · rw [writeAll_empty, hplaces, List.getLast?_map, List.getLast?_map, hlast, Option.map_some,
      Option.map_some]
  · decide +kernel
  · rw [headerLine_link, headerLines_within_page, List.mem_cons, List.mem_filter, not_or]
    exact ⟨by decide +kernel, fun h => hnew (of_decide_eq_true h.2)⟩
  · have hempty : HeaderLines.empty.lines = places [] := rfl
    have hplace : linkLine 1033 ∈ places ((List.range' 1023 11).map linkLine) :=
      HeaderLines.mem_places_of_length_le (by decide +kernel)
        (List.mem_map_of_mem (by decide))
    rw [ofResponse_eq _ hempty [], tabled_page, headerLine_link, headerLines_within_page]
    simp only [List.nil_append, List.append_nil, List.mem_cons, List.mem_filter]
    exact .inr ⟨List.mem_map_of_mem (by decide), decide_eq_true hplace⟩

end WireResponse
end TypedRoutes
