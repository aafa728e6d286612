import LogosFs.Memory.Ingestion

/-! # Fetching ranges of messages

`range_fetch` puts the well-formed ranges of a request into one disjunction, in the order of the ids,
and cuts a page out of it. The pages at the offsets `0`, `e`, `2 e`, … for the limit `e` tile the
stored messages whose ids are in a well-formed range (`rangeFetch_tiles`): in strictly increasing order
of the ids, each of them once, up to the first empty page. -/

namespace LogosFs.Memory

open Program (eval)

/-! ## Pages of a list -/

section Pages

variable {α : Type}

/-- The first `n` pages of a list, by `drop` and `take`, are what it begins with. -/
theorem flatMap_pages (l : List α) (size n : Nat) :
    ((List.range n).flatMap fun k => (l.drop (k * size)).take size) = l.take (n * size) := by
  induction n with
  | zero => rw [Nat.zero_mul, List.take_zero, List.range_zero, List.flatMap_nil]
  | succ n ih =>
    rw [List.range_succ, List.flatMap_append, ih, List.flatMap_singleton, Nat.succ_mul, List.take_add]

/-- A list has as many pages of a positive `size` as it takes to reach its end: those before are not
empty. -/
theorem exists_pages (l : List α) {size : Nat} (hsize : 0 < size) :
    ∃ n, l.length ≤ n * size ∧ ∀ k < n, k * size < l.length := by
  induction h : l.length using Nat.strong_induction_on generalizing l with
  | _ length ih =>
    by_cases hlong : length = 0
    · exact ⟨0, by omega, fun k hk => absurd hk (Nat.not_lt_zero k)⟩
    · have hshort : (l.drop size).length = length - size := by rw [List.length_drop, h]
      obtain ⟨n, hreach, hbefore⟩ := ih (length - size) (by omega) (l.drop size) hshort
      refine ⟨n + 1, ?_, fun k hk => ?_⟩
      · rw [Nat.succ_mul]
        omega
      · cases k with
        | zero => omega
        | succ k =>
          have := hbefore k (by omega)
          rw [Nat.succ_mul]
          omega

end Pages

/-! ## What a request asks for -/

/-- A request has a well-formed range: an array whose first two elements are integers of 64 bits. -/
def HasRange (val : Json) (first last : Int) : Prop :=
  ∃ items a b rest, val.get "ranges" = .array items ∧ .array (a :: b :: rest) ∈ items ∧
    a.asI64 = some first ∧ b.asI64 = some last

/-- The effective limit: the limit brought into the range from 1 to 200, and 50 if there is none. -/
def effectiveLimit (val : Json) : Nat :=
  match (val.get "limit").asI64 with
  | some limit => if limit < 1 then 1 else if 200 < limit then 200 else limit.toNat
  | none => 50

/-- The limit that the code clamps is the `effectiveLimit`. -/
theorem clamp_eq_effectiveLimit (val : Json) :
    clamp MessageDb.rangeFetchMaxLimit ((val.get "limit").asI64.getD 50) = effectiveLimit val := by
  rw [effectiveLimit, MessageDb.rangeFetchMaxLimit, clamp]
  cases (val.get "limit").asI64 with
  | none => rfl
  | some limit =>
    rw [Option.getD_some]
    dsimp only
    split_ifs <;> omega

/-- `effectiveLimit` admits at least one message. -/
theorem effectiveLimit_pos (val : Json) : 0 < effectiveLimit val := by
  rw [← clamp_eq_effectiveLimit, clamp]
  omega

/-- `effectiveLimit` admits at most 200 messages. -/
theorem effectiveLimit_le (val : Json) : effectiveLimit val ≤ 200 := by
  rw [← clamp_eq_effectiveLimit, clamp, MessageDb.rangeFetchMaxLimit]
  omega

/-- `rangesOf` answers the well-formed ranges: those with `HasRange`. -/
theorem mem_rangesOf_iff {val : Json} {first last : Int} :
    (first, last) ∈ MessageDb.rangesOf val ↔ HasRange val first last := by
  -- One item is taken as a range if it is an array that begins with two integers.
  have hitem : ∀ item : Json, (do
      let items ← item.asArray
      let a ← (← items[0]?).asI64
      let b ← (← items[1]?).asI64
      return (a, b)) = some (first, last) ↔ ∃ a b rest, item = .array (a :: b :: rest) ∧
        a.asI64 = some first ∧ b.asI64 = some last := by
    intro item
    constructor
    · intro h
      obtain ⟨items, hitems, h⟩ := Option.bind_eq_some_iff.mp h
      obtain ⟨a, ha, h⟩ := Option.bind_eq_some_iff.mp h
      obtain ⟨first', hfirst, h⟩ := Option.bind_eq_some_iff.mp h
      obtain ⟨b, hb, h⟩ := Option.bind_eq_some_iff.mp h
      obtain ⟨last', hlast, h⟩ := Option.bind_eq_some_iff.mp h
      cases h
      cases item with
      | array all =>
        obtain rfl := Option.some_inj.mp hitems
        match all, ha, hb with
        | a' :: b' :: rest, ha, hb =>
          cases ha
          cases hb
          exact ⟨_, _, rest, rfl, hfirst, hlast⟩
      | _ => cases hitems
    · rintro ⟨a, b, rest, rfl, ha, hb⟩
      simp [Json.asArray, ha, hb]
  rw [MessageDb.rangesOf, List.mem_filterMap]
  constructor
  · rintro ⟨item, hmem, hsome⟩
    obtain ⟨a, b, rest, rfl, ha, hb⟩ := (hitem item).mp hsome
    cases hranges : val.get "ranges" with
    | array items =>
      rw [hranges] at hmem
      exact ⟨items, a, b, rest, hranges, hmem, ha, hb⟩
    | _ =>
      rw [hranges] at hmem
      cases hmem
  · rintro ⟨items, a, b, rest, hranges, hmem, ha, hb⟩
    refine ⟨.array (a :: b :: rest), ?_, (hitem _).mpr ⟨a, b, rest, rfl, ha, hb⟩⟩
    rw [hranges]
    exact hmem

section Requested

variable {w : World} {chatId : Str} {place : Place}

/-- The messages of a file in ranges of ids, as a request asks for them. -/
def World.inRanges (w : World) (place : Place) (val : Json) : List MessageRow :=
  (((((w.files place).messages.contents.filter fun row =>
    (MessageDb.rangesOf val).any fun range => range.1 ≤ row.msgId && row.msgId ≤ range.2).mergeSort
      fun row row' => row.msgId ≤ row'.msgId)).drop
        (max 0 ((val.get "offset").asI64.getD 0)).toNat).take
          (clamp MessageDb.rangeFetchMaxLimit ((val.get "limit").asI64.getD 50))

/-- All messages of a file in the ranges of a request, in the order of their ids. -/
def World.allInRanges (w : World) (place : Place) (val : Json) : List MessageRow :=
  ((w.files place).messages.contents.filter fun row =>
    (MessageDb.rangesOf val).any fun range => range.1 ≤ row.msgId && row.msgId ≤ range.2).mergeSort
      fun row row' => row.msgId ≤ row'.msgId

/-- `inRanges` is one page of `allInRanges`, by the offset and the `effectiveLimit`. -/
theorem inRanges_eq (w : World) (place : Place) (val : Json) : w.inRanges place val
    = ((w.allInRanges place val).drop (max 0 ((val.get "offset").asI64.getD 0)).toNat).take
        (effectiveLimit val) := by
  rw [← clamp_eq_effectiveLimit]
  rfl

/-- `allInRanges` has the stored messages whose ids are in one of the ranges. -/
theorem mem_allInRanges_iff {val : Json} {row : MessageRow} : row ∈ w.allInRanges place val ↔
    row ∈ (w.files place).messages.contents ∧
      ∃ first last, HasRange val first last ∧ first ≤ row.msgId ∧ row.msgId ≤ last := by
  rw [World.allInRanges, List.mem_mergeSort, List.mem_filter, List.any_eq_true]
  refine and_congr_right fun _ => ⟨?_, ?_⟩
  · rintro ⟨⟨first, last⟩, hrange, hbounds⟩
    rw [Bool.and_eq_true, decide_eq_true_iff, decide_eq_true_iff] at hbounds
    exact ⟨first, last, mem_rangesOf_iff.mp hrange, hbounds⟩
  · rintro ⟨first, last, hrange, hbounds⟩
    refine ⟨(first, last), mem_rangesOf_iff.mpr hrange, ?_⟩
    rwa [Bool.and_eq_true, decide_eq_true_iff, decide_eq_true_iff]

/-- What is answered as `inRanges` is stored. -/
theorem mem_of_mem_inRanges {val : Json} {row : MessageRow} (h : row ∈ w.inRanges place val) :
    row ∈ (w.files place).messages.contents := by
  rw [inRanges_eq] at h
  exact (mem_allInRanges_iff.mp (List.mem_of_mem_drop (List.mem_of_mem_take h))).1

/-- `allInRanges` has no id twice, as it is the primary key. -/
theorem pairwise_allInRanges (w : World) (place : Place) (val : Json) :
    (w.allInRanges place val).Pairwise fun row row' => row.msgId < row'.msgId := by
  have hsorted : (w.allInRanges place val).Pairwise fun row row' => row.msgId ≤ row'.msgId := by
    have hle : (w.allInRanges place val).Pairwise fun row row' =>
        decide (row.msgId ≤ row'.msgId) = true := List.pairwise_mergeSort
      (fun a b c hab hbc => by simp only [decide_eq_true_iff] at *; omega)
      (fun a b => by simp only [Bool.or_eq_true, decide_eq_true_iff]; omega)
      ((w.files place).messages.contents.filter fun row =>
        (MessageDb.rangesOf val).any fun range => range.1 ≤ row.msgId && row.msgId ≤ range.2)
    exact hle.imp of_decide_eq_true
  have hdistinct : (w.allInRanges place val).Pairwise fun row row' => row.msgId ≠ row'.msgId := by
    have hnodup : ((w.allInRanges place val).map MessageRow.msgId).Nodup := by
      refine ((List.mergeSort_perm _ _).map MessageRow.msgId).nodup_iff.mpr ?_
      exact (w.files place).messages.contents_keys_nodup.sublist (List.filter_sublist.map _)
    exact List.pairwise_map.mp hnodup
  exact (hsorted.and hdistinct).imp fun h => lt_of_le_of_ne h.1 h.2

/-- No message is in `allInRanges` more often than it is stored. -/
theorem length_allInRanges_le (w : World) (place : Place) (val : Json) :
    (w.allInRanges place val).length ≤ (w.files place).messages.contents.length := by
  rw [World.allInRanges, List.length_mergeSort]
  exact List.length_filter_le _ _

variable {json : JsonCodec}

/-- `rangeFetch` answers the messages in `inRanges`, and changes the pools only. -/
theorem eval_rangeFetch {params : Str} {val : Json} (hparse : json.fromStr params = .ok val)
    (hranges : MessageDb.rangesOf val ≠ []) (hplace : (w.pool chatId).1 = .ok place) :
    eval handler (MessageDb.rangeFetch json chatId params) w
      = (.ok (json.toStr (.array ((w.inRanges place val).map msgRowToJson))), (w.pool chatId).2) := by
  have hselect : ∀ (limit offset : Nat) (w₁ : World),
      eval handler (rangeMessages place (MessageDb.rangesOf val) limit offset) w₁
        = ((exec w₁.engine (.rangeMessages (MessageDb.rangesOf val) limit offset)
            (w₁.files place)).1.mapError fun e => .sqlite ([] ++ e), w₁) := by
    intro limit offset w₁
    exact (eval_send w₁ place _ _).trans (congrArg (Prod.mk _) (World.withDb_self w₁ place))
  unfold MessageDb.rangeFetch parseJson
  rw [hparse]
  dsimp only
  rw [Program.eval_bind, Program.eval_pure, Program.evalNext_ok,
    if_neg (by rwa [List.isEmpty_iff]), Program.eval_bind, eval_pool, hplace, Program.evalNext_ok,
    Program.eval_bind, hselect]
  show (Except.ok (json.toStr (.array ((World.inRanges _ place val).map msgRowToJson))), _) = _
  rw [World.inRanges, World.inRanges, (sameArchive_pool w chatId).messages]

/-- `rangeFetch` without ranges answers the empty array. -/
theorem eval_rangeFetch_nil {params : Str} {val : Json} (hparse : json.fromStr params = .ok val)
    (hranges : MessageDb.rangesOf val = []) :
    eval handler (MessageDb.rangeFetch json chatId params) w = (.ok "[]", w) := by
  unfold MessageDb.rangeFetch parseJson
  rw [hparse]
  dsimp only
  rw [Program.eval_bind, Program.eval_pure, Program.evalNext_ok,
    if_pos (List.isEmpty_iff.mpr hranges), Program.eval_pure]

/-! ## Page by page -/

/-- A request for the same ranges with the same limit, from an offset on. -/
structure FromOffset (val : Json) (offset : Nat) (page : Json) : Prop where
  /-- The same ranges. -/
  ranges : page.get "ranges" = val.get "ranges"
  /-- The same limit. -/
  limit : page.get "limit" = val.get "limit"
  /-- The offset. -/
  offset : page.get "offset" = .number (.int offset)

/-- A request `FromOffset` asks for the page of `allInRanges` that starts there. -/
theorem FromOffset.inRanges {val page : Json} {offset : Nat} (h : FromOffset val offset page)
    (hoffset : offset < 2 ^ 63) (w : World) (place : Place) : w.inRanges place page
      = ((w.allInRanges place val).drop offset).take (effectiveLimit val) := by
  have hranges : MessageDb.rangesOf page = MessageDb.rangesOf val := by
    rw [MessageDb.rangesOf, h.ranges, MessageDb.rangesOf]
  have hlimit : effectiveLimit page = effectiveLimit val := by
    rw [effectiveLimit, h.limit, effectiveLimit]
  have hi64 : (page.get "offset").asI64 = some (offset : Int) := by
    rw [h.offset, Json.asI64, if_pos (by omega)]
  have hstart : (max 0 (offset : Int)).toNat = offset := by omega
  rw [inRanges_eq, hlimit, hi64, World.allInRanges, hranges, World.allInRanges, Option.getD_some, hstart]

/-- The world after the first requests for ranges of a chat, one after another. -/
def World.afterFetches (w : World) (json : JsonCodec) (chatId : Str) (requests : Nat → Str) :
    Nat → World
  | 0 => w
  | k + 1 => (eval handler (MessageDb.rangeFetch json chatId (requests k))
      (w.afterFetches json chatId requests k)).2

variable (json) in
/-- Fetching, by `afterFetches`, leaves the messages as they are, and the database open. -/
theorem afterFetches_same (hplace : (w.pool chatId).1 = .ok place) (requests : Nat → Str) (k : Nat) :
    SameArchive w (w.afterFetches json chatId requests k) ∧
      ((w.afterFetches json chatId requests k).pool chatId).1 = .ok place := by
  induction k with
  | zero => exact ⟨.refl w, hplace⟩
  | succ k ih =>
    rw [World.afterFetches]
    generalize w.afterFetches json chatId requests k = w₁ at ih
    obtain ⟨hsame, hopen⟩ := ih
    cases hparse : json.fromStr (requests k) with
    | error e =>
      have hend : (eval handler (MessageDb.rangeFetch json chatId (requests k)) w₁).2 = w₁ := by
        unfold MessageDb.rangeFetch parseJson
        rw [hparse]
        rfl
      rw [hend]
      exact ⟨hsame, hopen⟩
    | ok page =>
      by_cases hranges : MessageDb.rangesOf page = []
      · rw [eval_rangeFetch_nil hparse hranges]
        exact ⟨hsame, hopen⟩
      · rw [eval_rangeFetch hparse hranges hopen]
        exact ⟨hsame.trans (sameArchive_pool w₁ chatId), World.pool_pool hopen⟩

/-- `rangeFetch` of the request from an offset answers the page of `allInRanges` that starts there.
-/
theorem eval_rangeFetch_fromOffset {params : Str} {val page : Json} {offset : Nat}
    (hparse : json.fromStr params = .ok page) (hpage : FromOffset val offset page)
    (hoffset : offset < 2 ^ 63) (hplace : (w.pool chatId).1 = .ok place) :
    (eval handler (MessageDb.rangeFetch json chatId params) w).1 = .ok (json.toStr (.array
      ((((w.allInRanges place val).drop offset).take (effectiveLimit val)).map msgRowToJson))) := by
  rw [← hpage.inRanges hoffset]
  by_cases hranges : MessageDb.rangesOf page = []
  · have hnone : w.inRanges place page = [] := by
      rw [World.inRanges, hranges]
      simp
    rw [eval_rangeFetch_nil hparse hranges, hnone, List.map_nil, json.toStr_nil]
  · rw [eval_rangeFetch hparse hranges hplace]

/-- Pages tile the messages that a request asks for: none of them is empty, and one after another they
are the stored messages whose ids are in a well-formed range, in strictly increasing order. -/
structure Tiles (stored : List MessageRow) (val : Json) (pages : List (List MessageRow)) : Prop where
  /-- No page is empty. -/
  nonempty : ∀ page ∈ pages, page ≠ []
  /-- The ids ascend, so that no message comes twice. -/
  increasing : pages.flatten.Pairwise fun row row' => row.msgId < row'.msgId
  /-- They are the stored messages whose ids are in a well-formed range. -/
  mem_iff : ∀ row, row ∈ pages.flatten ↔ row ∈ stored ∧
    ∃ first last, HasRange val first last ∧ first ≤ row.msgId ∧ row.msgId ≤ last

/-- The pages of `allInRanges` tile what a request asks for: `Tiles`. -/
theorem tiles_pages (w : World) (place : Place) (val : Json) {n : Nat}
    (hreach : (w.allInRanges place val).length ≤ n * effectiveLimit val)
    (hbefore : ∀ k < n, k * effectiveLimit val < (w.allInRanges place val).length) :
    Tiles (w.files place).messages.contents val ((List.range n).map fun k =>
      ((w.allInRanges place val).drop (k * effectiveLimit val)).take (effectiveLimit val)) := by
  have hall : ((List.range n).map fun k =>
      ((w.allInRanges place val).drop (k * effectiveLimit val)).take (effectiveLimit val)).flatten
        = w.allInRanges place val := by
    rw [← List.flatMap_def, flatMap_pages, List.take_of_length_le hreach]
  refine ⟨fun page hpage hnil => ?_, ?_, fun row => ?_⟩
  · obtain ⟨k, hk, rfl⟩ := List.mem_map.mp hpage
    have hshort := congrArg List.length hnil
    rw [List.length_take, List.length_drop, List.length_nil] at hshort
    have hlong := hbefore k (List.mem_range.mp hk)
    have hpos := effectiveLimit_pos val
    omega
  · rw [hall]
    exact pairwise_allInRanges w place val
  · rw [hall]
    exact mem_allInRanges_iff

/-- The most rows that a table of SQLite has room for: a file has less than `2 ^ 32` pages of at most
`2 ^ 16` bytes. -/
def maxRows : Nat := 2 ^ 48

variable (json) in
/-- **The pages of a request tile it**: for every table of messages, every request and the offsets
`0`, `e`, `2 e`, … for its effective limit `e`, the answers up to the first empty one are the stored
messages whose ids are in a well-formed range, in strictly increasing order of the ids. -/
theorem rangeFetch_tiles {requests : Nat → Str} {val : Json}
    (hplace : (w.pool chatId).1 = .ok place)
    (hrows : (w.files place).messages.contents.length ≤ maxRows)
    (hrequests : ∀ k, k * effectiveLimit val < 2 ^ 63 → ∃ page,
      json.fromStr (requests k) = .ok page ∧ FromOffset val (k * effectiveLimit val) page) :
    ∃ pages, Tiles (w.files place).messages.contents val pages ∧
      (∀ k (hk : k < pages.length),
        (eval handler (MessageDb.rangeFetch json chatId (requests k))
          (w.afterFetches json chatId requests k)).1
            = .ok (json.toStr (.array (pages[k].map msgRowToJson)))) ∧
      (eval handler (MessageDb.rangeFetch json chatId (requests pages.length))
        (w.afterFetches json chatId requests pages.length)).1 = .ok "[]" := by
  obtain ⟨n, hreach, hbefore⟩ := exists_pages (w.allInRanges place val) (effectiveLimit_pos val)
  have hlength := length_allInRanges_le w place val
  have hlimit := effectiveLimit_le val
  -- The offsets up to that of the empty page are integers of 64 bits.
  have hsmall : ∀ k ≤ n, k * effectiveLimit val < 2 ^ 63 := by
    intro k hk
    rw [maxRows] at hrows
    cases k with
    | zero => omega
    | succ k =>
      have := hbefore k (by omega)
      rw [Nat.succ_mul]
      omega
  have hanswer : ∀ k ≤ n, (eval handler (MessageDb.rangeFetch json chatId (requests k))
      (w.afterFetches json chatId requests k)).1 = .ok (json.toStr (.array
        ((((w.allInRanges place val).drop (k * effectiveLimit val)).take
          (effectiveLimit val)).map msgRowToJson))) := by
    intro k hk
    obtain ⟨page, hparse, hpage⟩ := hrequests k (hsmall k hk)
    obtain ⟨hsame, hopen⟩ := afterFetches_same json hplace requests k
    have hstored : (w.afterFetches json chatId requests k).allInRanges place val
        = w.allInRanges place val := by
      rw [World.allInRanges, hsame.messages, World.allInRanges]
    rw [eval_rangeFetch_fromOffset hparse hpage (hsmall k hk) hopen, hstored]
  refine ⟨_, tiles_pages w place val hreach hbefore, fun k hk => ?_, ?_⟩
  · rw [List.length_map, List.length_range] at hk
    rw [hanswer k hk.le, List.getElem_map, List.getElem_range]
  · rw [List.length_map, List.length_range, hanswer n le_rfl, List.drop_of_length_le hreach,
      List.take_nil, List.map_nil, json.toStr_nil]

end Requested

/-- A table of three messages. -/
def threeMessages : Table MessageRow Int MessageRow.msgId where
  rows := [(1, ⟨1, [], "dev", [], none, "one", "[]"⟩), (2, ⟨7, [], "dev", [], none, "two", "[]"⟩),
    (3, ⟨3, [], "dev", [], none, "three", "[]"⟩)]
  keys_nodup := by decide
  rowids_lt := by decide

/-- Overlapping, reversed and malformed ranges, to be fetched one message at a time, from an offset. -/
def severalRanges (offset : Nat) : Json := .ofPairs [
  ("ranges", .array [.array [.number (.int 1), .number (.int 3)],
    .array [.number (.int 9), .number (.int 2)], .array [.number (.int 3), .number (.int 7)],
    .string "all"]),
  ("limit", .number (.int 0)), ("offset", .number (.int offset))]

/-- `severalRanges` is `Exact` for offsets that fit into 64 bits. -/
theorem exact_severalRanges {offset : Nat} (h : offset < 2 ^ 63) : (severalRanges offset).Exact := by
  have hranges : ((severalRanges 0).get "ranges").ExactAt 126 := by
    have hdecoded : ((severalRanges 0).get "ranges") = .array [.array [.number (.int 1), .number (.int 3)],
        .array [.number (.int 9), .number (.int 2)], .array [.number (.int 3), .number (.int 7)],
        .string "all"] := rfl
    rw [hdecoded]
    refine .array fun item hitem => ?_
    simp only [List.mem_cons, List.not_mem_nil, or_false] at hitem
    rcases hitem with rfl | rfl | rfl | rfl
    all_goals first
      | exact .string
      | refine .array fun number hnumber => ?_
        simp only [List.mem_cons, List.not_mem_nil, or_false] at hnumber
        rcases hnumber with rfl | rfl <;> exact .int (by decide) (by decide)
  refine Json.exactAt_ofPairs fun pair hpair => ?_
  simp only [List.mem_cons, List.not_mem_nil, or_false] at hpair
  rcases hpair with rfl | rfl | rfl
  · exact hranges
  · exact .int (by decide) (by decide)
  · exact .int (by omega) (by omega)

/-- `Tiles` for three messages that are fetched one at a time. -/
theorem rangeFetch_tiles_three :
    ∃ pages, Tiles threeMessages.contents (severalRanges 0) pages ∧
      (∀ k (hk : k < pages.length),
        (eval handler (MessageDb.rangeFetch JsonText.codec "dev"
            (JsonText.codec.toStr (severalRanges k)))
          ((Scanning.world.withDb ["data", "memory", "dev.db"]
            { ChatDb.empty with messages := threeMessages }).afterFetches JsonText.codec "dev"
              (fun k => JsonText.codec.toStr (severalRanges k)) k)).1
            = .ok (JsonText.codec.toStr (.array (pages[k].map msgRowToJson)))) ∧
      (eval handler (MessageDb.rangeFetch JsonText.codec "dev"
          (JsonText.codec.toStr (severalRanges pages.length)))
        ((Scanning.world.withDb ["data", "memory", "dev.db"]
          { ChatDb.empty with messages := threeMessages }).afterFetches JsonText.codec "dev"
            (fun k => JsonText.codec.toStr (severalRanges k)) pages.length)).1 = .ok "[]" := by
  have hlimit : effectiveLimit (severalRanges 0) = 1 := by decide +kernel
  have hplace : ((Scanning.world.withDb ["data", "memory", "dev.db"]
      { ChatDb.empty with messages := threeMessages }).pool "dev").1
        = .ok ["data", "memory", "dev.db"] := by decide +kernel
  have hrows : (((Scanning.world.withDb ["data", "memory", "dev.db"]
      { ChatDb.empty with messages := threeMessages }).files
        ["data", "memory", "dev.db"]).messages.contents.length) ≤ maxRows := by
    rw [World.withDb_files_self]
    decide
  have hrequests : ∀ k, k * effectiveLimit (severalRanges 0) < 2 ^ 63 → ∃ page,
      JsonText.codec.fromStr (JsonText.codec.toStr (severalRanges k)) = .ok page ∧
        FromOffset (severalRanges 0) (k * effectiveLimit (severalRanges 0)) page := by
    intro k hk
    rw [hlimit, Nat.mul_one] at hk ⊢
    exact ⟨severalRanges k, JsonText.codec.fromStr_toStr _ (exact_severalRanges hk), rfl, rfl, rfl⟩
  have h := rangeFetch_tiles JsonText.codec hplace hrows hrequests
  rwa [World.withDb_files_self] at h

end LogosFs.Memory
