import Lapse.Json.Value
import Lapse.Proofs.Json.Token
import Lapse.Proofs.Text.Utf8

/-!
# Reading back JSON values

Data that is written compactly is cut into the tokens that one expects, and these are read as the
tree of the data: nothing is left over, and nothing is unusable as long as every number has 64 bits
and lists and records are not nested too deep.
-/

namespace Lapse.Json

/-! ## Tokens and tree of data -/

mutual

/-- The tokens of data. -/
def words : Data → List Token
  | .null => [.null]
  | .bool b => [.bool b]
  | .int n => [.int n]
  | .str s => [.str (some s)]
  | .list items => .leftBracket :: (itemWords items ++ [.rightBracket])
  | .record members => .leftBrace :: (memberWords members ++ [.rightBrace])

/-- The tokens of items, with commas between them. -/
def itemWords : List Data → List Token
  | [] => []
  | [item] => words item
  | item :: rest => words item ++ .comma :: itemWords rest

/-- The tokens of members, with commas between them. -/
def memberWords : List (String × Data) → List Token
  | [] => []
  | [(name, value)] => .str (some name) :: .colon :: words value
  | (name, value) :: rest =>
    .str (some name) :: .colon :: (words value ++ .comma :: memberWords rest)

end

mutual

/-- The tree of data. -/
def ofData : Data → Json
  | .null => .null
  | .bool b => .bool b
  | .int n => .int n
  | .str s => .str s
  | .list items => .array (ofItems items)
  | .record members => .object (ofFields members)

/-- The trees of items. -/
def ofItems : List Data → List Json
  | [] => []
  | item :: rest => ofData item :: ofItems rest

/-- The trees of members. -/
def ofFields : List (String × Data) → List (String × Json)
  | [] => []
  | (name, value) :: rest => (name, ofData value) :: ofFields rest

end

mutual

/-- Every number has 64 bits, and lists and records are nested at most so deep. -/
def Fits (room : Nat) : Data → Prop
  | .int n => FitsWord n
  | .list items => 0 < room ∧ ItemsFit (room - 1) items
  | .record members => 0 < room ∧ MembersFit (room - 1) members
  | _ => True

/-- Every item fits. -/
def ItemsFit (room : Nat) : List Data → Prop
  | [] => True
  | item :: rest => Fits room item ∧ ItemsFit room rest

/-- Every member fits. -/
def MembersFit (room : Nat) : List (String × Data) → Prop
  | [] => True
  | (_, value) :: rest => Fits room value ∧ MembersFit room rest

end

theorem membersFit_iff {room : Nat} {ms : List (String × Data)} :
    MembersFit room ms ↔ ∀ m ∈ ms, Fits room m.2 := by
  induction ms with
  | nil => exact ⟨fun _ => nofun, fun _ => trivial⟩
  | cons m ms ih => rw [MembersFit, ih, List.forall_mem_cons]

/-! ## From text to tokens -/

/-- How a token is written; the other tokens never are. -/
def spell : Token → List Char
  | .leftBrace => ['{']
  | .rightBrace => ['}']
  | .leftBracket => ['[']
  | .rightBracket => [']']
  | .comma => [',']
  | .colon => [':']
  | .null => "null".toList
  | .bool true => "true".toList
  | .bool false => "false".toList
  | .int n => Decimal.ofInt n
  | .str (some s) => quote s
  | .real | .excessive | .str none => []

/-- A text of tokens, with any white space before, between and after them. -/
inductive Spaced : List Token → List Char → Prop
  | done : Spaced [] []
  | space {c ts cs} (blank : isSpace (some c) = true) (others : Spaced ts cs) : Spaced ts (c :: cs)
  | word {t ts cs} (others : Spaced ts cs) : Spaced (t :: ts) (spell t ++ cs)

/-- Tokens without white space. -/
theorem Spaced.tight (ts : List Token) : Spaced ts (ts.flatMap spell) := by
  induction ts with
  | nil => exact .done
  | cons t ts ih => exact .word ih

mutual

/-- The compact text is that of the tokens without white space. -/
theorem flatMap_words : ∀ d : Data, (words d).flatMap spell = compact d
  | .null | .bool true | .bool false | .int _ | .str _ => by simp [words, spell, compact]
  | .list items => by simp [words, spell, compact, flatMap_itemWords items]
  | .record members => by simp [words, spell, compact, flatMap_memberWords members]

theorem flatMap_itemWords : ∀ ds : List Data, (itemWords ds).flatMap spell = compactItems ds
  | [] => rfl
  | [d] => flatMap_words d
  | d :: d' :: ds => by
      simp [itemWords, spell, compactItems, flatMap_words d, flatMap_itemWords (d' :: ds)]

theorem flatMap_memberWords :
    ∀ ms : List (String × Data), (memberWords ms).flatMap spell = compactMembers ms
  | [] => rfl
  | [(name, d)] => by simp [memberWords, spell, compactMembers, flatMap_words d]
  | (name, d) :: m :: ms => by
      simp [memberWords, spell, compactMembers, flatMap_words d, flatMap_memberWords (m :: ms)]

end

/-! White space is written only between tokens. -/

theorem Spaced.append {ts ts' : List Token} {cs cs' : List Char} (h : Spaced ts cs)
    (h' : Spaced ts' cs') : Spaced (ts ++ ts') (cs ++ cs') := by
  induction h with
  | done => exact h'
  | space blank _ ih => exact .space blank ih
  | word _ ih =>
      rw [List.append_assoc]
      exact .word ih

/-- One token. -/
theorem Spaced.one (t : Token) : Spaced [t] (spell t) := by
  have h : Spaced [t] (spell t ++ []) := .word .done
  rwa [List.append_nil] at h

/-- A new line may begin the text. -/
theorem Spaced.newLine {ts : List Token} {cs : List Char} (h : Spaced ts cs) (level : Nat) :
    Spaced ts (newLine level ++ cs) := by
  have hblanks : ∀ n, Spaced ts (List.replicate n ' ' ++ cs) := by
    intro n
    induction n with
    | zero => exact h
    | succ n ih => exact .space rfl ih
  exact .space rfl (hblanks (2 * level))

/-- What stands between two tokens, the second of them on a line of its own. -/
theorem Spaced.between {ts : List Token} {cs : List Char} (h : Spaced ts cs) (first last : Token)
    (level : Nat) : Spaced (first :: (ts ++ [last]))
      (spell first ++ cs ++ Json.newLine level ++ spell last) := by
  rw [List.append_assoc]
  exact ((Spaced.one first).append h).append ((Spaced.one last).newLine level)

/-- A name and its value on a new line. -/
theorem Spaced.member {ts : List Token} {cs : List Char} (h : Spaced ts cs) (name : String)
    (level : Nat) : Spaced (.str (some name) :: .colon :: ts)
      (Json.newLine level ++ quote name ++ ':' :: ' ' :: cs) := by
  have hvalue : Spaced (.colon :: ts) (':' :: ' ' :: cs) :=
    (Spaced.one .colon).append (.space rfl h)
  rw [List.append_assoc]
  exact ((Spaced.one (.str (some name))).append hvalue).newLine level

mutual

/-- The spread text is that of the tokens, with white space between them. -/
theorem spaced_spread : ∀ (level : Nat) (d : Data), Spaced (words d) (spread level d)
  | _, .null => .one .null
  | _, .bool true => .one (.bool true)
  | _, .bool false => .one (.bool false)
  | _, .int n => .one (.int n)
  | _, .str s => .one (.str (some s))
  | _, .list [] => .tight [.leftBracket, .rightBracket]
  | level, .list (d :: ds) =>
      (spaced_spreadItems (level + 1) (d :: ds)).between .leftBracket .rightBracket level
  | _, .record [] => .tight [.leftBrace, .rightBrace]
  | level, .record (m :: ms) =>
      (spaced_spreadMembers (level + 1) (m :: ms)).between .leftBrace .rightBrace level

theorem spaced_spreadItems :
    ∀ (level : Nat) (ds : List Data), Spaced (itemWords ds) (spreadItems level ds)
  | _, [] => .done
  | level, [d] => (spaced_spread level d).newLine level
  | level, d :: d' :: ds =>
      ((spaced_spread level d).newLine level).append <|
        (Spaced.one .comma).append (spaced_spreadItems level (d' :: ds))

theorem spaced_spreadMembers : ∀ (level : Nat) (ms : List (String × Data)),
    Spaced (memberWords ms) (spreadMembers level ms)
  | _, [] => .done
  | level, [(name, d)] => (spaced_spread level d).member name level
  | level, (name, d) :: m :: ms =>
      ((spaced_spread level d).member name level).append <|
        (Spaced.one .comma).append (spaced_spreadMembers level (m :: ms))

end

/-- A token that ends the number before it. -/
def isMark : Token → Bool
  | .comma | .rightBracket | .rightBrace => true
  | _ => false

/-- Tokens that are found again where they are written: none is without value, and numbers have 64 bits
and end at a mark. -/
def Cut : List Token → Prop
  | [] => True
  | .int n :: rest => FitsWord n ∧ (∀ t ∈ rest.head?, isMark t = true) ∧ Cut rest
  | .real :: _ | .excessive :: _ | .str none :: _ => False
  | _ :: rest => Cut rest

mutual

theorem cut_words (room : Nat) : ∀ d : Data, Fits room d → ∀ rest : List Token,
    (∀ t ∈ rest.head?, isMark t = true) → Cut rest → Cut (words d ++ rest)
  | .null, _, _, _, h => h
  | .bool _, _, _, _, h => h
  | .int _, hfits, _, hmark, h => ⟨hfits, hmark, h⟩
  | .str _, _, _, _, h => h
  | .list items, hfits, rest, _, h => by
      have hitems := cut_itemWords (room - 1) items hfits.2 (.rightBracket :: rest) (by simp [isMark]) h
      have hsplit : words (.list items) ++ rest =
          .leftBracket :: (itemWords items ++ .rightBracket :: rest) := by simp [words]
      rw [hsplit]
      exact hitems
  | .record members, hfits, rest, _, h => by
      have hmembers := cut_memberWords (room - 1) members hfits.2 (.rightBrace :: rest)
        (by simp [isMark]) h
      have hsplit : words (.record members) ++ rest =
          .leftBrace :: (memberWords members ++ .rightBrace :: rest) := by simp [words]
      rw [hsplit]
      exact hmembers

theorem cut_itemWords (room : Nat) : ∀ ds : List Data, ItemsFit room ds → ∀ rest : List Token,
    (∀ t ∈ rest.head?, isMark t = true) → Cut rest → Cut (itemWords ds ++ rest)
  | [], _, _, _, h => h
  | [d], hfits, rest, hmark, h => cut_words room d hfits.1 rest hmark h
  | d :: d' :: ds, hfits, rest, hmark, h => by
      have hothers := cut_itemWords room (d' :: ds) hfits.2 rest hmark h
      have hd := cut_words room d hfits.1 (.comma :: (itemWords (d' :: ds) ++ rest))
        (by simp [isMark]) hothers
      simpa [itemWords] using hd

theorem cut_memberWords (room : Nat) : ∀ ms : List (String × Data), MembersFit room ms →
    ∀ rest : List Token, (∀ t ∈ rest.head?, isMark t = true) → Cut rest →
    Cut (memberWords ms ++ rest)
  | [], _, _, _, h => h
  | [(_, d)], hfits, rest, hmark, h => cut_words room d hfits.1 rest hmark h
  | (name, d) :: m :: ms, hfits, rest, hmark, h => by
      have hothers := cut_memberWords room (m :: ms) hfits.2 rest hmark h
      have hd := cut_words room d hfits.1 (.comma :: (memberWords (m :: ms) ++ rest))
        (by simp [isMark]) hothers
      have hsplit : memberWords ((name, d) :: m :: ms) ++ rest = .str (some name) :: .colon ::
          (words d ++ .comma :: (memberWords (m :: ms) ++ rest)) := by simp [memberWords]
      rw [hsplit]
      exact hd

end

theorem Scans.word (c : Char) (cs : List Char) {t : Token} {rest : List Item} {ts : List Token}
    (dark : isSpace (some c) = false)
    (scan : scanToken (items (c :: cs) ++ rest) = some (t, rest)) (others : Scans rest ts) :
    Scans (items (c :: cs) ++ rest) (t :: ts) :=
  .token dark scan (by simp) others

theorem isSpace_of_isDigit {c : Char} (h : Decimal.isDigit c = true) :
    isSpace (some c) = false := by
  rw [Bool.eq_false_iff]
  intro hspace
  simp only [isSpace, Bool.or_eq_true, beq_iff_eq] at hspace
  rcases hspace with ((rfl | rfl) | rfl) | rfl <;> exact absurd h (by decide)

theorem scans_ofInt {n : Int} (hn : FitsWord n) {rest : List Item} {ts : List Token}
    (hrest : Stops rest) (h : Scans rest ts) :
    Scans (items (Decimal.ofInt n) ++ rest) (.int n :: ts) := by
  have hscan := scanToken_ofInt hn hrest
  have hhead : ∃ c cs, Decimal.ofInt n = c :: cs ∧ isSpace (some c) = false := by
    rw [Decimal.ofInt]
    split
    · exact ⟨_, _, rfl, rfl⟩
    · obtain ⟨c, cs, hdigits, -⟩ := Decimal.digits_eq_cons n.natAbs
      refine ⟨c, cs, hdigits, isSpace_of_isDigit ?_⟩
      exact Decimal.isDigit_of_mem_digits (n := n.natAbs) (hdigits ▸ List.mem_cons_self)
  obtain ⟨c, cs, hcons, dark⟩ := hhead
  rw [hcons] at hscan ⊢
  exact .word _ _ dark hscan h

/-- A number ends at a mark, at white space and at the end of the text. -/
theorem Spaced.stops {ts : List Token} {cs : List Char} (h : Spaced ts cs)
    (hmark : ∀ t ∈ ts.head?, isMark t = true) : Stops (items cs) := by
  intro c hc
  cases h with
  | done => exact nomatch hc
  | @space c' ts cs blank _ =>
      obtain rfl : c' = c := Option.some.inj (Option.some.inj hc)
      simp only [isSpace, Bool.or_eq_true, beq_iff_eq] at blank
      rcases blank with ((rfl | rfl) | rfl) | rfl <;> decide
  | @word t ts cs _ =>
      have ht := hmark t rfl
      cases t with
      | comma | rightBracket | rightBrace =>
          obtain rfl := Option.some.inj (Option.some.inj hc)
          decide
      | _ => exact nomatch ht

/-- **WHITE SPACE**: a text is cut into its tokens wherever white space stands between them. -/
theorem Spaced.scans {ts : List Token} {cs : List Char} (h : Spaced ts cs) (hcut : Cut ts) :
    Scans (items cs) ts := by
  induction h with
  | done => exact .done
  | space blank _ ih => exact .space blank (ih hcut)
  | @word t ts cs others ih =>
      rw [items, List.map_append]
      cases t with
      | int n =>
          obtain ⟨hfits, hmark, hcut⟩ := hcut
          exact scans_ofInt hfits (others.stops hmark) (ih hcut)
      | str s =>
          cases s with
          | none => exact nomatch hcut
          | some s => exact .word _ _ rfl (scanToken_quote s _) (ih hcut)
      | bool b =>
          cases b with
          | true => exact .word 't' ['r', 'u', 'e'] rfl rfl (ih hcut)
          | false => exact .word 'f' ['a', 'l', 's', 'e'] rfl rfl (ih hcut)
      | null => exact .word 'n' ['u', 'l', 'l'] rfl rfl (ih hcut)
      | leftBrace => exact .word '{' [] rfl rfl (ih hcut)
      | rightBrace => exact .word '}' [] rfl rfl (ih hcut)
      | leftBracket => exact .word '[' [] rfl rfl (ih hcut)
      | rightBracket => exact .word ']' [] rfl rfl (ih hcut)
      | comma => exact .word ',' [] rfl rfl (ih hcut)
      | colon => exact .word ':' [] rfl rfl (ih hcut)
      | real => exact nomatch hcut
      | excessive => exact nomatch hcut

/-! ## From tokens to the tree -/

/-- Data begins with a token of its own, not with the end of a list. -/
theorem words_eq_cons (d : Data) : ∃ t ts, words d = t :: ts ∧ t ≠ .rightBracket := by
  cases d with
  | null => exact ⟨_, _, rfl, by decide⟩
  | bool b => exact ⟨_, _, rfl, nofun⟩
  | int n => exact ⟨_, _, rfl, nofun⟩
  | str s => exact ⟨_, _, rfl, nofun⟩
  | list items => exact ⟨_, _, rfl, nofun⟩
  | record members => exact ⟨_, _, rfl, nofun⟩

theorem itemWords_eq_cons (d : Data) (ds : List Data) :
    ∃ t ts, itemWords (d :: ds) = t :: ts ∧ t ≠ .rightBracket := by
  obtain ⟨t, ts, hwords, ht⟩ := words_eq_cons d
  cases ds with
  | nil => exact ⟨t, ts, hwords, ht⟩
  | cons d' ds => exact ⟨t, ts ++ .comma :: itemWords (d' :: ds), by simp [itemWords, hwords], ht⟩

theorem memberWords_eq_cons (name : String) (d : Data) (ms : List (String × Data)) :
    ∃ ts, memberWords ((name, d) :: ms) = .str (some name) :: ts := by
  cases ms with
  | nil => exact ⟨_, rfl⟩
  | cons m ms => exact ⟨_, rfl⟩

theorem ofMembers_named (ms : List (String × Json)) :
    ofMembers (ms.map fun m => (some m.1, m.2)) = .object ms := by
  have hnamed : (ms.map fun m => (some m.1, m.2)).mapM
      (fun m : Option String × Json => m.1.map fun key => (key, m.2)) = some ms := by
    induction ms with
    | nil => rfl
    | cons m ms ih => simp [ih]
  rw [ofMembers, hnamed]

mutual

theorem readValue_words (room : Nat) : ∀ (d : Data), Fits room d → ∀ (fuel depth : Nat),
    2 * (words d).length ≤ fuel → depth + room ≤ maxDepth → ∀ rest,
    readValue fuel depth (words d ++ rest) = some (ofData d, rest)
  | .null, _, fuel + 1, _, _, _, _ => rfl
  | .bool b, _, fuel + 1, _, _, _, _ => rfl
  | .int n, _, fuel + 1, _, _, _, _ => rfl
  | .str s, _, fuel + 1, _, _, _, _ => rfl
  | .list [], hfits, fuel + 1, depth, _, hdepth, rest => by
      have hroom : depth < maxDepth := by have := hfits.1; omega
      show some (atDepth depth (.array []), rest) = _
      rw [atDepth, if_pos hroom]
      rfl
  | .list (d :: ds), hfits, fuel + 1, depth, hfuel, hdepth, rest => by
      have hroom : depth < maxDepth := by have := hfits.1; omega
      have hitems := readItems_words (room - 1) (d :: ds) (by simp) hfits.2 fuel
        (depth + 1) (by simp [words] at hfuel; omega) (by have := hfits.1; omega) rest
      obtain ⟨t, ts, hwords, ht⟩ := itemWords_eq_cons d ds
      rw [hwords] at hitems
      have hsplit : words (.list (d :: ds)) ++ rest =
          .leftBracket :: t :: (ts ++ .rightBracket :: rest) := by
        simp [words, hwords]
      rw [hsplit, readValue]
      · rw [← List.cons_append, hitems]
        simp [atDepth, hroom, ofData]
      · rintro rest' hclose
        exact ht (List.cons.inj hclose).1
  | .record [], hfits, fuel + 1, depth, _, hdepth, rest => by
      have hroom : depth < maxDepth := by have := hfits.1; omega
      show some (atDepth depth (.object []), rest) = _
      rw [atDepth, if_pos hroom]
      rfl
  | .record ((name, d) :: ms), hfits, fuel + 1, depth, hfuel, hdepth, rest => by
      have hroom : depth < maxDepth := by have := hfits.1; omega
      have hmembers := readMembers_words (room - 1) ((name, d) :: ms) (by simp) hfits.2
        fuel (depth + 1) (by simp [words] at hfuel; omega)
        (by have := hfits.1; omega) rest
      have hsplit : words (.record ((name, d) :: ms)) ++ rest =
          .leftBrace :: (memberWords ((name, d) :: ms) ++ .rightBrace :: rest) := by
        simp [words]
      obtain ⟨ts, hwords⟩ := memberWords_eq_cons name d ms
      rw [hsplit, readValue]
      · rw [hmembers]
        simp [atDepth, hroom, ofMembers_named, ofData]
      · rintro rest' hclose
        rw [hwords] at hclose
        exact nomatch (List.cons.inj hclose).1
  | d, _, 0, _, hfuel, _, _ => by
      obtain ⟨t, ts, hwords, -⟩ := words_eq_cons d
      rw [hwords] at hfuel
      simp at hfuel

theorem readItems_words (room : Nat) : ∀ (ds : List Data), ds ≠ [] → ItemsFit room ds →
    ∀ (fuel depth : Nat), 2 * (itemWords ds).length + 1 ≤ fuel → depth + room ≤ maxDepth →
    ∀ rest, readItems fuel depth (itemWords ds ++ .rightBracket :: rest) =
      some (ofItems ds, rest)
  | [d], _, hfits, fuel + 1, depth, hfuel, hdepth, rest => by
      have hd := readValue_words room d hfits.1 fuel depth
        (by simp [itemWords] at hfuel; omega) hdepth (.rightBracket :: rest)
      show (readValue fuel depth (words d ++ .rightBracket :: rest)).bind _ = _
      rw [hd]
      rfl
  | d :: d' :: ds, _, hfits, fuel + 1, depth, hfuel, hdepth, rest => by
      have hlen : 2 * (itemWords (d' :: ds)).length + 1 ≤ fuel ∧ 2 * (words d).length ≤ fuel := by
        simp [itemWords] at hfuel
        omega
      have hd := readValue_words room d hfits.1 fuel depth hlen.2 hdepth
        (.comma :: (itemWords (d' :: ds) ++ .rightBracket :: rest))
      have hds := readItems_words room (d' :: ds) (by simp) hfits.2 fuel
        depth hlen.1 hdepth rest
      have hsplit : itemWords (d :: d' :: ds) ++ .rightBracket :: rest =
          words d ++ .comma :: (itemWords (d' :: ds) ++ .rightBracket :: rest) := by
        simp [itemWords]
      rw [hsplit, readItems]
      simp [hd, hds, ofItems]

theorem readMembers_words (room : Nat) : ∀ (ms : List (String × Data)), ms ≠ [] →
    MembersFit room ms → ∀ (fuel depth : Nat), 2 * (memberWords ms).length + 1 ≤ fuel →
    depth + room ≤ maxDepth → ∀ rest,
    readMembers fuel depth (memberWords ms ++ .rightBrace :: rest) =
      some ((ofFields ms).map fun m => (some m.1, m.2), rest)
  | [(name, d)], _, hfits, fuel + 1, depth, hfuel, hdepth, rest => by
      have hd := readValue_words room d hfits.1 fuel depth
        (by simp [memberWords] at hfuel; omega) hdepth (.rightBrace :: rest)
      have hsplit : memberWords [(name, d)] ++ .rightBrace :: rest =
          .str (some name) :: .colon :: (words d ++ .rightBrace :: rest) := rfl
      rw [hsplit, readMembers]
      simp [hd, ofFields]
  | (name, d) :: m :: ms, _, hfits, fuel + 1, depth, hfuel, hdepth, rest => by
      have hlen : 2 * (memberWords (m :: ms)).length + 1 ≤ fuel ∧ 2 * (words d).length ≤ fuel := by
        simp [memberWords] at hfuel
        omega
      have hd := readValue_words room d hfits.1 fuel depth hlen.2 hdepth
        (.comma :: (memberWords (m :: ms) ++ .rightBrace :: rest))
      have hms := readMembers_words room (m :: ms) (by simp) hfits.2 fuel
        depth hlen.1 hdepth rest
      have hsplit : memberWords ((name, d) :: m :: ms) ++ .rightBrace :: rest =
          .str (some name) :: .colon ::
            (words d ++ .comma :: (memberWords (m :: ms) ++ .rightBrace :: rest)) := by
        simp [memberWords]
      rw [hsplit, readMembers]
      simp [hd, hms, ofFields]

end

/-- **WHITE SPACE**: the text of data is read as the tree of the data, whatever white space stands
between its tokens. -/
theorem parse_spaced {d : Data} (h : Fits maxDepth d) {cs : List Char} (hcs : Spaced (words d) cs) :
    parse (Utf8.encodeChars cs) = some (ofData d) := by
  have hcut := cut_words maxDepth d h [] nofun trivial
  have hread := readValue_words maxDepth d h (2 * (words d).length + 2) 0
    (by omega) (by omega) []
  simp only [List.append_nil] at hcut hread
  rw [parse, Utf8.decode_encodeChars, (hcs.scans hcut).tokens]
  show ofTokens (words d) = _
  rw [ofTokens, hread]

/-- **READING BACK**: the compact text of data is read as the tree of the data. -/
theorem parse_compact {d : Data} (h : Fits maxDepth d) :
    parse (Utf8.encodeChars (compact d)) = some (ofData d) :=
  parse_spaced h (flatMap_words d ▸ .tight (words d))

end Lapse.Json
