import ClosingLabels.Proofs.Spelling
import ClosingLabels.Proofs.Tables

/-!
# Values read back

A value that was written over several lines reads back as it was, as long as its objects
list their members the way objects do and its numbers are whole and small enough to be
exact. The reader is given twice as many calls as there are characters, which is enough.
Whatever is read lists the members of its objects in that way.
-/

namespace ClosingLabels

namespace Table

variable {κ α : Type} [DecidableEq κ]

/-- Writing a new name adds a row at the end. -/
theorem put_of_new {key : κ} {rows : List (κ × α)} (h : key ∉ rows.map Prod.fst) (value : α) :
    put key value rows = rows ++ [(key, value)] := by
  induction rows with
  | nil => rfl
  | cons row rest ih =>
    rw [List.map_cons, List.mem_cons, not_or] at h
    rw [put, if_neg fun hsame => h.1 hsame.symm, ih h.2]
    rfl

/-- Rows with different names make a table as they are. -/
theorem ofRows_of_nodup {rows : List (κ × α)} (h : (rows.map Prod.fst).Nodup) :
    ofRows rows = ⟨rows⟩ := by
  have hgo (front : List (κ × α)) (hnodup : ((front ++ rows).map Prod.fst).Nodup) :
      rows.foldl (fun (table : Table κ α) row => table.insert row.1 row.2) ⟨front⟩ =
        ⟨front ++ rows⟩ := by
    clear h
    induction rows generalizing front with
    | nil => rw [List.append_nil]; rfl
    | cons row rest ih =>
      have hnew : row.1 ∉ front.map Prod.fst := by
        intro hold
        rw [List.map_append, List.nodup_append] at hnodup
        exact hnodup.2.2 _ hold _ List.mem_cons_self rfl
      rw [List.foldl_cons, insert, put_of_new hnew, ih]
      · simp
      · simpa using hnodup
  exact hgo [] h

/-- Rows written one after another leave each name once, and only rows that were written. -/
theorem ofRows_nodup (rows : List (κ × α)) :
    (ofRows rows).keys.Nodup ∧ ∀ row ∈ (ofRows rows).rows, row ∈ rows := by
  have hgo (table : Table κ α) (hnodup : table.keys.Nodup) :
      let done := rows.foldl (fun (table : Table κ α) row => table.insert row.1 row.2) table
      done.keys.Nodup ∧ ∀ row ∈ done.rows, row ∈ table.rows ∨ row ∈ rows := by
    induction rows generalizing table with
    | nil => exact ⟨hnodup, fun row hrow => .inl hrow⟩
    | cons first rest ih =>
      obtain ⟨hkeys, hmem⟩ := ih _ (nodup_keys_insert hnodup first.1 first.2)
      refine ⟨hkeys, fun row hrow => ?_⟩
      rcases hmem row hrow with htable | hrest
      · rcases mem_rows_insert htable with rfl | hold
        · exact .inr List.mem_cons_self
        · exact .inl hold
      · exact .inr (List.mem_cons_of_mem first hrest)
  obtain ⟨hkeys, hmem⟩ := hgo .empty List.nodup_nil
  exact ⟨hkeys, fun row hrow => (hmem row hrow).resolve_left List.not_mem_nil⟩

end Table

namespace Json

open Printer Reader

/-! ## The order of members -/

/-- A name may stand before another: array indices stand in increasing order, and before all
other names. -/
def Precedes (name other : Text) : Prop :=
  match indexKey? name, indexKey? other with
  | some m, some n => m ≤ n
  | none, some _ => False
  | _, none => True

instance (name other : Text) : Decidable (Precedes name other) := by
  unfold Precedes
  split <;> infer_instance

/-- Rows that stand in order need not be arranged. -/
theorem arrange_of_ordered {α : Type} {rows : List (Text × α)}
    (h : rows.Pairwise fun row other => Precedes row.1 other.1) : arrange rows = rows := by
  have hsorted : (rows.filterMap fun row => (indexKey? row.1).map fun n => (n, row)).Pairwise
      fun a b => decide (a.1 ≤ b.1) = true := by
    refine List.Pairwise.filterMap _ (fun row other hrow a ha b hb => ?_) h
    obtain ⟨m, hm, rfl⟩ := Option.map_eq_some_iff.mp ha
    obtain ⟨n, hn, rfl⟩ := Option.map_eq_some_iff.mp hb
    simpa [Precedes, hm, hn] using hrow
  unfold arrange
  dsimp only
  rw [List.mergeSort_of_pairwise hsorted]
  clear hsorted
  induction rows with
  | nil => rfl
  | cons row rest ih =>
    obtain ⟨hrow, hrest⟩ := List.pairwise_cons.mp h
    cases hkey : indexKey? row.1 with
    | some n => simpa [hkey] using ih hrest
    | none =>
      -- Behind a name that is no index there are only such names.
      have hnone : ∀ other ∈ rest, indexKey? other.1 = none := by
        intro other hother
        have hbefore := hrow other hother
        cases hindex : indexKey? other.1 with
        | none => rfl
        | some n => simp [Precedes, hkey, hindex] at hbefore
      have hfirst : (rest.filterMap fun row => (indexKey? row.1).map fun n => (n, row)) = [] :=
        List.filterMap_eq_nil_iff.mpr fun other hother => by rw [hnone other hother]; rfl
      have hothers : (rest.filter fun row => (indexKey? row.1).isNone) = rest :=
        List.filter_eq_self.mpr fun other hother => by rw [hnone other hother]; rfl
      simp [hkey, hfirst, hothers]

/-- Arranging rows neither adds nor drops one. -/
theorem arrange_perm {α : Type} (rows : List (Text × α)) : (arrange rows).Perm rows := by
  have hindexed : (rows.filterMap fun row => (indexKey? row.1).map fun n => (n, row)).map Prod.snd =
      rows.filter fun row => (indexKey? row.1).isSome := by
    induction rows with
    | nil => rfl
    | cons row rest ih => cases hkey : indexKey? row.1 <;> simp [hkey, ih]
  have hsorted := (List.mergeSort_perm
    (rows.filterMap fun row => (indexKey? row.1).map fun n => (n, row))
    fun a b => decide (a.1 ≤ b.1)).map Prod.snd
  rw [hindexed] at hsorted
  have hsplit := List.filter_append_perm (fun row : Text × α => (indexKey? row.1).isSome) rows
  simp only [Option.not_isSome] at hsplit
  exact (hsorted.append_right _).trans hsplit

/-- Rows that were arranged stand in order. -/
theorem arrange_ordered {α : Type} (rows : List (Text × α)) :
    (arrange rows).Pairwise fun row other => Precedes row.1 other.1 := by
  have hmem : ∀ pair ∈ rows.filterMap fun row => (indexKey? row.1).map fun n => (n, row),
      indexKey? pair.2.1 = some pair.1 := by
    intro pair hpair
    obtain ⟨row, -, hrow⟩ := List.mem_filterMap.mp hpair
    obtain ⟨n, hn, rfl⟩ := Option.map_eq_some_iff.mp hrow
    exact hn
  have hlast : ∀ row : Text × α, ∀ other ∈ rows.filter fun row => (indexKey? row.1).isNone,
      Precedes row.1 other.1 := by
    intro row other hother
    rw [Precedes, Option.isNone_iff_eq_none.mp (List.mem_filter.mp hother).2]
    cases indexKey? row.1 <;> trivial
  refine List.pairwise_append.mpr ⟨List.pairwise_map.mpr ?_, ?_, ?_⟩
  · have hsorted : ((rows.filterMap fun row => (indexKey? row.1).map fun n => (n, row)).mergeSort
        fun a b => decide (a.1 ≤ b.1)).Pairwise fun a b => decide (a.1 ≤ b.1) = true :=
      List.pairwise_mergeSort (by intro a b c; simpa using Nat.le_trans)
        (by intro a b; simpa using Nat.le_total _ _) _
    refine hsorted.imp_of_mem fun {a b} ha hb hab => ?_
    rw [Precedes, hmem a (List.mem_mergeSort.mp ha), hmem b (List.mem_mergeSort.mp hb)]
    exact of_decide_eq_true hab
  · exact List.pairwise_of_forall_mem_list fun row _ other hother => hlast row other hother
  · exact fun row _ other hother => hlast row other hother

/-- A value whose objects hold each name once and list their members in order, and whose numbers
are all of a certain sort. -/
inductive Sound (fits : Number → Prop) : Json → Prop
  | null : Sound fits .null
  | bool (value : Bool) : Sound fits (.bool value)
  | number {value : Number} (hfits : fits value) : Sound fits (.number value)
  | string (value : Text) : Sound fits (.string value)
  | array {items : List Json} (hitems : ∀ item ∈ items, Sound fits item) :
      Sound fits (.array items)
  | object {members : List (Text × Json)} (hnames : (members.map Prod.fst).Nodup)
      (horder : members.Pairwise fun row other => Precedes row.1 other.1)
      (hmembers : ∀ member ∈ members, Sound fits member.2) : Sound fits (.object members)

/-- Writing the members of a sound object one after another gives the object. -/
theorem ofMembers_eq {members : List (Text × Json)} (hnames : (members.map Prod.fst).Nodup)
    (horder : members.Pairwise fun row other => Precedes row.1 other.1) :
    ofMembers members = .object members := by
  rw [ofMembers, Table.ofRows_of_nodup hnames, arrange_of_ordered horder]

/-- Writing sound members one after another gives a sound object. -/
theorem ofMembers_sound {fits : Number → Prop} {members : List (Text × Json)}
    (h : ∀ member ∈ members, Sound fits member.2) : (ofMembers members).Sound fits := by
  obtain ⟨hkeys, hrows⟩ := Table.ofRows_nodup members
  have hperm := arrange_perm (Table.ofRows members).rows
  exact .object ((hperm.map Prod.fst).nodup_iff.mpr hkeys) (arrange_ordered _) fun member hmember =>
    h member (hrows member (hperm.mem_iff.mp hmember))

/-- A whole number below the limit up to which all are exact. -/
def Exact (number : Number) : Prop := ∃ n : Nat, n < Number.exactLimit ∧ number = .finite n

/-! ## Blanks -/

theorem skip_of_not_space {c : Char} (hc : isSpace c = false) (rest : List Char) :
    skip (c :: rest) = c :: rest := by
  rw [skip, List.dropWhile_cons, if_neg (by simp [hc])]

@[simp] theorem skip_newLine (depth : Nat) (rest : List Char) :
    skip (newLine depth ++ rest) = skip rest := by
  have hall : ∀ c ∈ newLine depth, isSpace c = true := by
    intro c hc
    rcases List.mem_cons.mp hc with rfl | hblank
    · rfl
    · rw [List.eq_of_mem_replicate hblank]
      rfl
  exact List.dropWhile_append_of_pos hall

/-- What follows a number ends it. -/
theorem apart_newLine (depth : Nat) (rest : List Char) : Apart (newLine depth ++ rest) := by
  intro c hc
  obtain rfl := Option.some.inj hc
  exact .inr rfl

theorem apart_comma (rest : List Char) : Apart (',' :: rest) := by
  intro c hc
  obtain rfl := Option.some.inj hc
  exact .inl rfl

theorem numberText_of_exact {n : Nat} (hlimit : n < Number.exactLimit) :
    numberText (.finite n) = Number.digitsOf n := by
  have hle : n ≤ Number.exactLimit := Nat.le_of_lt hlimit
  have htext : (Number.finite (n : Rat)).text = String.ofList (Number.digitsOf n) := by
    rw [Number.text, if_pos (by simpa using hle), if_neg (by simp), Rat.num_natCast,
      Int.natAbs_natCast, List.nil_append]
  change (Number.finite (n : Rat)).text.toList = _
  rw [htext, String.toList_ofList]

/-- A written value begins with a character of its own. -/
theorem spread_head {json : Json} (h : json.Sound Exact) (depth : Nat) :
    ∃ c more, spread depth json = c :: more ∧ isSpace c = false ∧ c ≠ ']' := by
  cases h with
  | null => exact ⟨_, _, rfl, rfl, by decide⟩
  | bool value => cases value <;> exact ⟨_, _, rfl, rfl, by decide⟩
  | number hfits =>
    obtain ⟨n, hlimit, rfl⟩ := hfits
    obtain ⟨d, run, hdigits, hd⟩ := Number.digitsOf_eq_cons n
    refine ⟨d, run, ?_, ?_, ?_⟩
    · rw [spread, numberText_of_exact hlimit, hdigits]
    · simp only [isSpace, Bool.or_eq_false_iff, decide_eq_false_iff_not]
      refine ⟨⟨⟨?_, ?_⟩, ?_⟩, ?_⟩ <;> rintro rfl <;> cases hd
    · rintro rfl
      cases hd
  | string value => exact ⟨_, _, rfl, rfl, by decide⟩
  | @array items hitems => cases items <;> exact ⟨_, _, rfl, rfl, by decide⟩
  | @object members hnames horder hmembers => cases members <;> exact ⟨_, _, rfl, rfl, by decide⟩

theorem skip_spread {json : Json} (h : json.Sound Exact) (depth : Nat) (rest : List Char) :
    skip (spread depth json ++ rest) = spread depth json ++ rest := by
  obtain ⟨c, more, hspread, hc, -⟩ := spread_head h depth
  rw [hspread, List.cons_append, skip_of_not_space hc]

/-! ## Values -/

/-- A value reads back from any text that shows it behind blanks. -/
def ReadsBack (json : Json) : Prop :=
  ∀ depth fuel cs rest, skip cs = spread depth json ++ rest →
    2 * (spread depth json).length ≤ fuel → Apart rest → value fuel cs = some (json, rest)

/-- A written value is not empty, so some calls are granted for it. -/
theorem ReadsBack.of_succ {json : Json} (h : json.Sound Exact)
    (hsucc : ∀ depth fuel cs rest, skip cs = spread depth json ++ rest →
      2 * (spread depth json).length ≤ fuel + 1 → Apart rest →
      value (fuel + 1) cs = some (json, rest)) : ReadsBack json := by
  intro depth fuel cs rest hcs hfuel hrest
  obtain ⟨c, more, hspread, -, -⟩ := spread_head h depth
  cases fuel with
  | zero => simp [hspread] at hfuel
  | succ fuel => exact hsucc depth fuel cs rest hcs hfuel hrest

theorem number_readsBack {n : Nat} (hlimit : n < Number.exactLimit) :
    ReadsBack (.number (.finite n)) := by
  refine .of_succ (.number ⟨n, hlimit, rfl⟩) fun depth fuel cs rest hcs _ hrest => ?_
  have hread := number?_digitsOf hlimit hrest
  rw [spread, numberText_of_exact hlimit] at hcs
  obtain ⟨d, run, hdigits, hd⟩ := Number.digitsOf_eq_cons n
  rw [hdigits] at hcs hread
  rw [value, hcs]
  split
  case h_7 => rw [hread]; rfl
  all_goals
    next heq =>
      rw [List.cons_append] at heq
      rw [(List.cons.inj heq).1] at hd
      cases hd

/-- Items read back one after another, each from a line of its own. -/
theorem items_readBack {list : List Json} (hne : list ≠ []) (hsound : ∀ item ∈ list, item.Sound Exact)
    (hitems : ∀ item ∈ list, ReadsBack item) (depth outer fuel : Nat) (cs rest : List Char)
    (hcs : skip cs = skip (spreadItems depth list ++ (newLine outer ++ ']' :: rest)))
    (hfuel : 2 * (spreadItems depth list).length ≤ fuel) :
    items fuel cs = some (list, rest) := by
  induction list generalizing fuel cs with
  | nil => exact absurd rfl hne
  | cons item more ih =>
    have hitem := hitems item List.mem_cons_self
    have hfirst := hsound item List.mem_cons_self
    cases more with
    | nil =>
      rw [spreadItems] at hcs hfuel
      rw [List.append_assoc, skip_newLine, skip_spread hfirst] at hcs
      rw [List.length_append, newLine, List.length_cons] at hfuel
      cases fuel with
      | zero => omega
      | succ fuel =>
        rw [items, hitem depth fuel cs _ hcs (by omega) (apart_newLine _ _)]
        simp only [Option.bind_eq_bind, Option.bind_some, skip_newLine]
        rw [skip_of_not_space rfl]
        rfl
    | cons next last =>
      have hspread : spreadItems depth (item :: next :: last) =
          newLine depth ++ spread depth item ++ ',' :: spreadItems depth (next :: last) := rfl
      rw [hspread] at hcs hfuel
      rw [List.append_assoc, List.append_assoc, skip_newLine, List.cons_append,
        skip_spread hfirst] at hcs
      simp only [List.length_append, newLine, List.length_cons] at hfuel
      cases fuel with
      | zero => omega
      | succ fuel =>
        have hrest := ih (by simp) (fun j hj => hsound j (List.mem_cons_of_mem item hj))
          (fun j hj => hitems j (List.mem_cons_of_mem item hj)) fuel _ rfl (by omega)
        rw [items, hitem depth fuel cs _ hcs (by omega) (apart_comma _)]
        simp only [Option.bind_eq_bind, Option.bind_some]
        rw [skip_of_not_space rfl]
        simp only [hrest, Option.bind_some]
        rfl

/-- Members read back one after another, each from a line of its own. -/
theorem members_readBack {list : List (Text × Json)} (hne : list ≠ [])
    (hsound : ∀ member ∈ list, member.2.Sound Exact)
    (hmembers : ∀ member ∈ list, ReadsBack member.2) (depth outer fuel : Nat) (cs rest : List Char)
    (hcs : skip cs = skip (spreadMembers depth list ++ (newLine outer ++ '\x7d' :: rest)))
    (hfuel : 2 * (spreadMembers depth list).length ≤ fuel) :
    members fuel cs = some (list, rest) := by
  induction list generalizing fuel cs with
  | nil => exact absurd rfl hne
  | cons member more ih =>
    obtain ⟨name, json⟩ := member
    have hjson : ReadsBack json := hmembers (name, json) List.mem_cons_self
    have hfirst : json.Sound Exact := hsound (name, json) List.mem_cons_self
    have hcolon (tail : List Char) : skip (' ' :: (spread depth json ++ tail)) =
        spread depth json ++ tail := skip_spread hfirst depth tail
    cases more with
    | nil =>
      have hspread : spreadMembers depth [(name, json)] =
          newLine depth ++ quoted name ++ ':' :: ' ' :: spread depth json := rfl
      rw [hspread] at hcs hfuel
      simp only [List.append_assoc, skip_newLine, quoted, List.cons_append, List.nil_append,
        skip_of_not_space (c := '"') rfl] at hcs
      simp only [List.length_append, newLine, List.length_cons] at hfuel
      cases fuel with
      | zero => omega
      | succ fuel =>
        rw [members, hcs]
        simp only [stringTail_quoted, Option.bind_eq_bind, Option.bind_some,
          skip_of_not_space (c := ':') rfl]
        rw [hjson depth fuel _ _ (hcolon _) (by omega) (apart_newLine _ _)]
        simp only [Option.bind_some, skip_newLine]
        rw [skip_of_not_space rfl]
        rfl
    | cons next last =>
      have hspread : spreadMembers depth ((name, json) :: next :: last) =
          newLine depth ++ quoted name ++ ':' :: ' ' :: (spread depth json ++
            ',' :: spreadMembers depth (next :: last)) := rfl
      rw [hspread] at hcs hfuel
      simp only [List.append_assoc, skip_newLine, quoted, List.cons_append, List.nil_append,
        skip_of_not_space (c := '"') rfl] at hcs
      simp only [List.length_append, newLine, List.length_cons] at hfuel
      cases fuel with
      | zero => omega
      | succ fuel =>
        have hrest := ih (by simp) (fun m hm => hsound m (List.mem_cons_of_mem _ hm))
          (fun m hm => hmembers m (List.mem_cons_of_mem _ hm)) fuel _ rfl (by omega)
        rw [members, hcs]
        simp only [stringTail_quoted, Option.bind_eq_bind, Option.bind_some,
          skip_of_not_space (c := ':') rfl]
        rw [hjson depth fuel _ _ (hcolon _) (by omega) (apart_comma _)]
        simp only [Option.bind_some]
        rw [skip_of_not_space rfl]
        simp only [hrest, Option.bind_some]
        rfl

/-- An array reads back if its items do. -/
theorem array_readsBack {list : List Json} (hsound : ∀ item ∈ list, item.Sound Exact)
    (hitems : ∀ item ∈ list, ReadsBack item) : ReadsBack (.array list) := by
  refine .of_succ (.array hsound) fun depth fuel cs rest hcs hfuel _ => ?_
  cases list with
  | nil =>
    rw [value, hcs]
    rfl
  | cons item more =>
    have hspread : spread depth (.array (item :: more)) =
        '[' :: (spreadItems (depth + 1) (item :: more) ++ newLine depth ++ [']']) := rfl
    rw [hspread] at hcs hfuel
    simp only [List.length_append, List.length_cons] at hfuel
    simp only [List.cons_append, List.append_assoc, List.nil_append] at hcs
    obtain ⟨c, left, hhead, hspace, hbracket⟩ :
        ∃ c left, skip (spreadItems (depth + 1) (item :: more) ++ (newLine depth ++ ']' :: rest)) =
          c :: left ∧ isSpace c = false ∧ c ≠ ']' := by
      have hfirst := hsound item List.mem_cons_self
      obtain ⟨c, tail, hitem, hspace, hbracket⟩ := spread_head hfirst (depth + 1)
      cases more <;>
        simp only [spreadItems, List.append_assoc, skip_newLine, hitem, List.cons_append] <;>
        exact ⟨c, _, skip_of_not_space hspace _, hspace, hbracket⟩
    have hread := items_readBack (by simp) hsound hitems (depth + 1) depth fuel (c :: left) rest
      (by rw [hhead, skip_of_not_space hspace]) (by omega)
    rw [value, hcs]
    simp only [hhead]
    split
    · next h => exact absurd (List.cons.inj h).1 hbracket
    · rw [hread]
      rfl

/-- An object reads back if the values of its members do. -/
theorem object_readsBack {list : List (Text × Json)} (hnames : (list.map Prod.fst).Nodup)
    (horder : list.Pairwise fun row other => Precedes row.1 other.1)
    (hsound : ∀ member ∈ list, member.2.Sound Exact)
    (hmembers : ∀ member ∈ list, ReadsBack member.2) : ReadsBack (.object list) := by
  refine .of_succ (.object hnames horder hsound) fun depth fuel cs rest hcs hfuel _ => ?_
  cases list with
  | nil =>
    rw [value, hcs]
    rfl
  | cons member more =>
    have hspread : spread depth (.object (member :: more)) =
        '\x7b' :: (spreadMembers (depth + 1) (member :: more) ++ newLine depth ++ ['\x7d']) := rfl
    rw [hspread] at hcs hfuel
    simp only [List.length_append, List.length_cons] at hfuel
    simp only [List.cons_append, List.append_assoc, List.nil_append] at hcs
    obtain ⟨left, hhead⟩ : ∃ left, skip (spreadMembers (depth + 1) (member :: more) ++
        (newLine depth ++ '\x7d' :: rest)) = '"' :: left := by
      cases more <;>
        simp only [spreadMembers, List.append_assoc, skip_newLine, quoted, List.cons_append,
          skip_of_not_space (c := '"') rfl] <;>
        exact ⟨_, rfl⟩
    have hread := members_readBack (by simp) hsound hmembers (depth + 1) depth fuel ('"' :: left) rest
      (by rw [hhead, skip_of_not_space rfl]) (by omega)
    rw [value, hcs]
    simp only [hhead]
    change (members fuel ('"' :: left)).map _ = _
    rw [hread, Option.map_some, ofMembers_eq hnames horder]

/-- Every sound value reads back. -/
theorem Sound.readsBack {json : Json} (h : json.Sound Exact) : ReadsBack json := by
  induction h with
  | null => exact .of_succ .null fun _ _ _ _ hcs _ _ => by rw [value, hcs]; rfl
  | bool b => cases b <;> exact .of_succ (.bool _) fun _ _ _ _ hcs _ _ => by rw [value, hcs]; rfl
  | number hfits =>
    obtain ⟨n, hlimit, rfl⟩ := hfits
    exact number_readsBack hlimit
  | string text =>
    refine .of_succ (.string text) fun depth fuel cs rest hcs _ _ => ?_
    rw [value, hcs]
    simp only [spread, quoted, List.cons_append, List.append_assoc, List.nil_append,
      stringTail_quoted]
    rfl
  | array hitems ih => exact array_readsBack hitems ih
  | object hnames horder hmembers ih => exact object_readsBack hnames horder hmembers ih

/-- A text that shows a sound value is read as that value. -/
theorem parse?_pretty {json : Json} (h : json.Sound Exact) : parse? json.pretty = some json := by
  have hcs : skip (spread 0 json) = spread 0 json ++ [] := by
    simpa using skip_spread h 0 []
  have hread := h.readsBack 0 (2 * (spread 0 json).length + 2) (spread 0 json) [] hcs (by omega)
    (fun c hc => by cases hc)
  unfold parse? pretty
  rw [String.toList_ofList]
  dsimp only
  rw [hread]
  rfl

/-! ## What is read -/

/-- The items that the readers of values and items find are sound. -/
theorem items_sound {fuel : Nat}
    (hvalue : ∀ cs json rest, value fuel cs = some (json, rest) → json.Sound fun _ => True)
    (hitems : ∀ cs list rest, items fuel cs = some (list, rest) →
      ∀ item ∈ list, item.Sound fun _ => True) {cs rest : List Char} {list : List Json}
    (h : items (fuel + 1) cs = some (list, rest)) : ∀ item ∈ list, item.Sound fun _ => True := by
  rw [items] at h
  simp only [Option.bind_eq_bind, Option.bind_eq_some_iff] at h
  obtain ⟨⟨first, left⟩, hfirst, h⟩ := h
  have hsound := hvalue _ _ _ hfirst
  split at h
  · obtain ⟨⟨more, last⟩, hmore, h⟩ := Option.bind_eq_some_iff.mp h
    cases h
    exact List.forall_mem_cons.mpr ⟨hsound, hitems _ _ _ hmore⟩
  · cases h
    exact List.forall_mem_singleton.mpr hsound
  · cases h

/-- So are the members that the readers of values and members find. -/
theorem members_sound {fuel : Nat}
    (hvalue : ∀ cs json rest, value fuel cs = some (json, rest) → json.Sound fun _ => True)
    (hmembers : ∀ cs list rest, members fuel cs = some (list, rest) →
      ∀ member ∈ list, member.2.Sound fun _ => True) {cs rest : List Char}
    {list : List (Text × Json)} (h : members (fuel + 1) cs = some (list, rest)) :
    ∀ member ∈ list, member.2.Sound fun _ => True := by
  rw [members] at h
  split at h
  · obtain ⟨⟨name, left⟩, -, h⟩ := Option.bind_eq_some_iff.mp h
    dsimp only at h
    split at h
    · obtain ⟨⟨first, left⟩, hfirst, h⟩ := Option.bind_eq_some_iff.mp h
      dsimp only at h
      have hsound := hvalue _ _ _ hfirst
      split at h
      · obtain ⟨⟨more, last⟩, hmore, h⟩ := Option.bind_eq_some_iff.mp h
        cases h
        exact List.forall_mem_cons.mpr ⟨hsound, hmembers _ _ _ hmore⟩
      · cases h
        exact List.forall_mem_singleton.mpr hsound
      · cases h
    · cases h
  · cases h

/-- A value is sound if its items or members are. -/
theorem value_sound {fuel : Nat}
    (hitems : ∀ cs list rest, items fuel cs = some (list, rest) →
      ∀ item ∈ list, item.Sound fun _ => True)
    (hmembers : ∀ cs list rest, members fuel cs = some (list, rest) →
      ∀ member ∈ list, member.2.Sound fun _ => True) {cs rest : List Char} {json : Json}
    (h : value (fuel + 1) cs = some (json, rest)) : json.Sound fun _ => True := by
  rw [value] at h
  split at h
  · cases h
    exact .null
  · cases h
    exact .bool _
  · cases h
    exact .bool _
  · obtain ⟨read, -, hread⟩ := Option.map_eq_some_iff.mp h
    cases hread
    exact .string _
  · split at h
    · cases h
      exact .array fun _ h => absurd h List.not_mem_nil
    · obtain ⟨read, hinner, hread⟩ := Option.map_eq_some_iff.mp h
      cases hread
      exact .array (hitems _ _ _ hinner)
  · split at h
    · cases h
      exact .object List.nodup_nil .nil fun _ h => absurd h List.not_mem_nil
    · obtain ⟨read, hinner, hread⟩ := Option.map_eq_some_iff.mp h
      cases hread
      exact ofMembers_sound (hmembers _ _ _ hinner)
  · obtain ⟨read, -, hread⟩ := Option.map_eq_some_iff.mp h
    cases hread
    exact .number trivial

/-- Whatever is read is sound, be it a value, the items of an array or the members of an object. -/
theorem sound_of_read (fuel : Nat) :
    (∀ cs json rest, value fuel cs = some (json, rest) → json.Sound fun _ => True) ∧
    (∀ cs list rest, items fuel cs = some (list, rest) →
      ∀ item ∈ list, item.Sound fun _ => True) ∧
    (∀ cs list rest, members fuel cs = some (list, rest) →
      ∀ member ∈ list, member.2.Sound fun _ => True) := by
  induction fuel with
  | zero =>
    refine ⟨fun _ _ _ h => ?_, fun _ _ _ h => ?_, fun _ _ _ h => ?_⟩ <;> cases h
  | succ fuel ih =>
    obtain ⟨hvalue, hitems, hmembers⟩ := ih
    exact ⟨fun _ _ _ => value_sound hitems hmembers, fun _ _ _ => items_sound hvalue hitems,
      fun _ _ _ => members_sound hvalue hmembers⟩

/-- What a text shows is sound. -/
theorem sound_of_parse? {text : String} {json : Json} (h : parse? text = some json) :
    json.Sound fun _ => True := by
  unfold parse? at h
  dsimp only at h
  split at h
  · next found left hread =>
    split at h
    · cases h
      exact (sound_of_read _).1 _ _ _ hread
    · cases h
  · cases h

end Json

end ClosingLabels
