import Lapse.Yaml.Node
import Lapse.Proofs.Yaml.Tokens

/-!
# The tree of data

The tokens of data are read as the tree of the data, with nothing left over.  Every level takes at most
two steps for a token, so that the fuel is enough.
-/

namespace Lapse.Yaml

namespace Node

mutual

/-- The tree of data: a word or a text is a scalar in its style. -/
def ofData : Data → Node
  | .null => .scalar none none .plain "null".toList
  | .bool b => .scalar none none .plain (flagWord b)
  | .int n => .scalar none none .plain (Decimal.ofInt n)
  | .str s => .scalar none none (Style.ofText s.toList) s.toList
  | .list items => .list none (ofItems items)
  | .record members => .map none (ofEntries members)

/-- The trees of items. -/
def ofItems : List Data → List Node
  | [] => []
  | item :: rest => ofData item :: ofItems rest

/-- The trees of entries. -/
def ofEntries : List (String × Data) → List (Node × Node)
  | [] => []
  | (key, d) :: rest =>
    (.scalar none none (Style.ofText key.toList) key.toList, ofData d) :: ofEntries rest

end

theorem ofItems_eq_map (items : List Data) : ofItems items = items.map ofData := by
  induction items with
  | nil => rfl
  | cons item rest ih => rw [ofItems, ih, List.map_cons]

theorem ofEntries_eq_map (members : List (String × Data)) :
    ofEntries members = members.map fun e => (ofData (.str e.1), ofData e.2) := by
  induction members with
  | nil => rfl
  | cons e rest ih =>
      obtain ⟨key, d⟩ := e
      rw [ofEntries, ih, List.map_cons]
      rfl

/-! ## One node -/

variable {handles : Handles} {fuel : Nat} {loose : Bool} {ts rest after : List Token}
  {item key value : Node} {items : List Node} {entries : List (Node × Node)}

theorem read_scalar (inBlock : Bool) (style : Style) (text : List Char) :
    read handles (fuel + 1) inBlock loose (.scalar style text :: rest) =
      some (.scalar none none style text, rest) := by
  simp [read, properties, ofScalar]

theorem read_blockList (h : readItems handles fuel rest = some (items, after)) :
    read handles (fuel + 1) true loose (.blockList :: rest) = some (.list none items, after) := by
  simp [read, properties, h]

theorem read_blockMap (h : readEntries handles fuel rest = some (entries, after)) :
    read handles (fuel + 1) true loose (.blockMap :: rest) = some (.map none entries, after) := by
  simp [read, properties, h]

theorem read_dash (h : readLooseItems handles fuel (.dash :: rest) = some (items, after)) :
    read handles (fuel + 1) true true (.dash :: rest) = some (.list none items, after) := by
  simp [read, properties, h]

theorem readItems_dash (hstarts : endsItem rest = false)
    (hitem : read handles fuel true false rest = some (item, ts))
    (hitems : readItems handles fuel ts = some (items, after)) :
    readItems handles (fuel + 1) (.dash :: rest) = some (item :: items, after) := by
  simp [readItems, hstarts, hitem, hitems]

theorem readLooseItems_dash (hstarts : endsLooseItem rest = false)
    (hitem : read handles fuel true false rest = some (item, ts))
    (hitems : readLooseItems handles fuel ts = some (items, after)) :
    readLooseItems handles (fuel + 1) (.dash :: rest) = some (item :: items, after) := by
  simp [readLooseItems, hstarts, hitem, hitems]

theorem readEntries_key {style : Style} {text : List Char} (hstarts : endsEntry rest = false)
    (hvalue : read handles (fuel + 1) true true rest = some (value, ts))
    (hentries : readEntries handles (fuel + 1) ts = some (entries, after)) :
    readEntries handles (fuel + 2) (.key :: .scalar style text :: .value :: rest) =
      some ((.scalar none none style text, value) :: entries, after) := by
  have hkey : endsEntry (.scalar style text :: .value :: rest) = false := rfl
  simp [readEntries, hkey, read_scalar, hstarts, hvalue, hentries]

/-! ## The tokens of data -/

/-- How the tokens of a node begin: it is not missing where an entry, an item or a document has one. -/
structure Present (loose : Bool) (input : List Token) : Prop where
  entry : endsEntry input = false
  item : loose = false → endsItem input = false
  looseItem : loose = false → endsLooseItem input = false
  document : endsDocument input = false

theorem present_words (loose : Bool) (d : Data) (rest : List Token) :
    Present loose (words loose d ++ rest) := by
  have hscalar : ∀ style text ts, Present loose (.scalar style text :: ts) :=
    fun _ _ _ => ⟨rfl, fun _ => rfl, fun _ => rfl, rfl⟩
  cases d with
  | null => exact hscalar _ _ _
  | bool _ => exact hscalar _ _ _
  | int _ => exact hscalar _ _ _
  | str _ => exact hscalar _ _ _
  | list ds =>
      cases ds with
      | nil => exact ⟨rfl, fun _ => rfl, fun _ => rfl, rfl⟩
      | cons d ds =>
          cases loose with
          | true => exact ⟨rfl, nofun, nofun, rfl⟩
          | false => exact ⟨rfl, fun _ => rfl, fun _ => rfl, rfl⟩
  | record es =>
      cases es with
      | nil => exact ⟨rfl, fun _ => rfl, fun _ => rfl, rfl⟩
      | cons e es => exact ⟨rfl, fun _ => rfl, fun _ => rfl, rfl⟩

theorem length_words_pos (loose : Bool) (d : Data) : 0 < (words loose d).length := by
  have hpresent := (present_words loose d []).document
  rw [List.append_nil] at hpresent
  refine List.length_pos_iff.mpr fun hnil => ?_
  rw [hnil] at hpresent
  exact nomatch hpresent

/-- Whether an item comes next. -/
def isDash : List Token → Bool
  | .dash :: _ => true
  | _ => false

theorem readLooseItems_end (h : isDash rest = false) :
    readLooseItems handles (fuel + 1) rest = some ([], rest) := by
  unfold readLooseItems
  split
  · exact nomatch h
  · rfl
  · next heq => exact nomatch heq

/-- The tokens of data are read as its tree; after loose items no other item may follow. -/
structure Reads (handles : Handles) (d : Data) : Prop where
  own : ∀ fuel loose rest, 2 * (words false d).length + 1 ≤ fuel →
    read handles fuel true loose (words false d ++ rest) = some (ofData d, rest)
  loose : ∀ fuel rest, isDash rest = false → 2 * (words true d).length + 1 ≤ fuel →
    read handles fuel true true (words true d ++ rest) = some (ofData d, rest)

theorem readItems_itemWords {ds : List Data} (h : ∀ d ∈ ds, Reads handles d) (rest : List Token)
    (hpos : 0 < fuel) (hfuel : 2 * (itemWords ds).length ≤ fuel) :
    readItems handles fuel (itemWords ds ++ .blockEnd :: rest) = some (ofItems ds, rest) := by
  induction ds generalizing fuel with
  | nil =>
      obtain ⟨fuel, rfl⟩ : ∃ n, fuel = n + 1 := ⟨fuel - 1, by omega⟩
      simp [itemWords, ofItems, readItems]
  | cons d ds ih =>
      rw [itemWords, List.length_cons, List.length_append] at hfuel
      obtain ⟨fuel, rfl⟩ : ∃ n, fuel = n + 1 := ⟨fuel - 1, by omega⟩
      have hpresent := present_words false d (itemWords ds ++ .blockEnd :: rest)
      have hsize := length_words_pos false d
      rw [itemWords, List.cons_append, List.append_assoc]
      exact readItems_dash (hpresent.item rfl)
        ((h d List.mem_cons_self).own fuel false _ (by omega))
        (ih (fun e he => h e (List.mem_cons_of_mem d he)) (by omega) (by omega))

theorem readLooseItems_itemWords {ds : List Data} (h : ∀ d ∈ ds, Reads handles d)
    (hrest : isDash rest = false) (hpos : 0 < fuel) (hfuel : 2 * (itemWords ds).length ≤ fuel) :
    readLooseItems handles fuel (itemWords ds ++ rest) = some (ofItems ds, rest) := by
  induction ds generalizing fuel with
  | nil =>
      obtain ⟨fuel, rfl⟩ : ∃ n, fuel = n + 1 := ⟨fuel - 1, by omega⟩
      exact readLooseItems_end hrest
  | cons d ds ih =>
      rw [itemWords, List.length_cons, List.length_append] at hfuel
      obtain ⟨fuel, rfl⟩ : ∃ n, fuel = n + 1 := ⟨fuel - 1, by omega⟩
      have hpresent := present_words false d (itemWords ds ++ rest)
      have hsize := length_words_pos false d
      rw [itemWords, List.cons_append, List.append_assoc]
      exact readLooseItems_dash (hpresent.looseItem rfl)
        ((h d List.mem_cons_self).own fuel false _ (by omega))
        (ih (fun e he => h e (List.mem_cons_of_mem d he)) (by omega) (by omega))

theorem readEntries_entryWords {es : List (String × Data)} (h : ∀ e ∈ es, Reads handles e.2)
    (rest : List Token) (hpos : 0 < fuel) (hfuel : 2 * (entryWords es).length ≤ fuel) :
    readEntries handles fuel (entryWords es ++ .blockEnd :: rest) =
      some (ofEntries es, rest) := by
  induction es generalizing fuel with
  | nil =>
      obtain ⟨fuel, rfl⟩ : ∃ n, fuel = n + 1 := ⟨fuel - 1, by omega⟩
      simp [entryWords, ofEntries, readEntries]
  | cons e es ih =>
      obtain ⟨key, d⟩ := e
      simp only [entryWords, List.length_cons, List.length_append] at hfuel
      obtain ⟨fuel, rfl⟩ : ∃ n, fuel = n + 2 := ⟨fuel - 2, by omega⟩
      have hd : Reads handles d := h (key, d) List.mem_cons_self
      have hothers := @ih (fuel + 1) (fun e he => h e (List.mem_cons_of_mem _ he)) (by omega)
        (by omega)
      simp only [entryWords, List.cons_append, List.append_assoc]
      refine readEntries_key (present_words _ d _).entry ?_ hothers
      cases hkey : isShortKey key.toList with
      | true =>
          rw [hkey] at hfuel
          refine hd.loose (fuel + 1) _ ?_ (by omega)
          cases es <;> rfl
      | false =>
          rw [hkey] at hfuel
          exact hd.own (fuel + 1) true _ (by omega)

theorem reads_list {d : Data} {ds : List Data} (h : ∀ e ∈ d :: ds, Reads handles e) :
    Reads handles (.list (d :: ds)) where
  own fuel loose rest hfuel := by
    have hsize : (words false (.list (d :: ds))).length = (itemWords (d :: ds)).length + 2 := by
      simp [words]
    obtain ⟨fuel, rfl⟩ : ∃ n, fuel = n + 1 := ⟨fuel - 1, by omega⟩
    have hitems := @readItems_itemWords handles fuel _ h rest (by omega) (by omega)
    have hread := @read_blockList handles fuel loose _ _ _ hitems
    simpa [words, ofData] using hread
  loose fuel rest hrest hfuel := by
    have hwords : words true (.list (d :: ds)) = itemWords (d :: ds) := rfl
    rw [hwords] at hfuel ⊢
    have hsize : 0 < (itemWords (d :: ds)).length := Nat.succ_pos _
    obtain ⟨fuel, rfl⟩ : ∃ n, fuel = n + 1 := ⟨fuel - 1, by omega⟩
    have hitems := @readLooseItems_itemWords handles fuel rest _ h hrest (by omega) (by omega)
    exact read_dash hitems

theorem reads_record {e : String × Data} {es : List (String × Data)}
    (h : ∀ e' ∈ e :: es, Reads handles e'.2) : Reads handles (.record (e :: es)) := by
  have hread : ∀ fuel loose rest,
      2 * (words false (.record (e :: es))).length + 1 ≤ fuel →
      read handles fuel true loose (words false (.record (e :: es)) ++ rest) =
        some (ofData (.record (e :: es)), rest) := by
    intro fuel loose rest hfuel
    have hsize : (words false (.record (e :: es))).length = (entryWords (e :: es)).length + 2 := by
      simp [words]
    obtain ⟨fuel, rfl⟩ : ∃ n, fuel = n + 1 := ⟨fuel - 1, by omega⟩
    have hentries := @readEntries_entryWords handles fuel _ h rest (by omega) (by omega)
    have hread := @read_blockMap handles fuel loose _ _ _ hentries
    simpa [words, ofData] using hread
  exact ⟨hread, fun fuel rest _ hfuel => hread fuel true rest hfuel⟩

/-- **TREES**: the tokens of data are read as the tree of the data. -/
theorem reads (handles : Handles) (d : Data) : Reads handles d := by
  have hwhole : ∀ d, (∀ loose, words loose d = wholeWords d) →
      (∀ fuel loose rest, read handles (fuel + 2) true loose (wholeWords d ++ rest) =
        some (ofData d, rest)) → Reads handles d := by
    intro d hwords hread
    have hread' : ∀ within fuel loose rest, 2 * (words within d).length + 1 ≤ fuel →
        read handles fuel true loose (words within d ++ rest) = some (ofData d, rest) := by
      intro within fuel loose rest hfuel
      have hpos := length_words_pos within d
      obtain ⟨fuel, rfl⟩ : ∃ n, fuel = n + 2 := ⟨fuel - 2, by omega⟩
      rw [hwords, hread]
    exact ⟨hread' false, fun fuel rest _ hfuel => hread' true fuel true rest hfuel⟩
  induction d using Data.induct with
  | null => exact hwhole _ (fun _ => rfl) fun _ _ _ => read_scalar true _ _
  | bool b => exact hwhole _ (fun _ => rfl) fun _ _ _ => read_scalar true _ _
  | int n => exact hwhole _ (fun _ => rfl) fun _ _ _ => read_scalar true _ _
  | str s => exact hwhole _ (fun _ => rfl) fun _ _ _ => read_scalar true _ _
  | list ds ih =>
      cases ds with
      | nil =>
          refine hwhole _ (fun _ => rfl) fun fuel loose rest => ?_
          simp [wholeWords, read, properties, readBrackets, ofData, ofItems]
      | cons d ds => exact reads_list ih
  | record es ih =>
      cases es with
      | nil =>
          refine hwhole _ (fun _ => rfl) fun fuel loose rest => ?_
          simp [wholeWords, read, properties, readBraces, ofData, ofEntries]
      | cons e es => exact reads_record ih

/-- **DOCUMENTS**: the data is the only document. -/
theorem ofTokens_words (d : Data) : ofTokens (words false d) = some (some (ofData d)) := by
  have hread := (reads defaultHandles d).own (2 * (words false d).length + 2) false [] (by omega)
  have hpresent := (present_words false d []).document
  rw [List.append_nil] at hread hpresent
  generalize words false d = input at hread hpresent
  unfold ofTokens
  split
  · exact nomatch hpresent
  · exact nomatch hpresent
  · exact nomatch hpresent
  · dsimp only
    rw [hread]
    rfl

end Node

end Lapse.Yaml
