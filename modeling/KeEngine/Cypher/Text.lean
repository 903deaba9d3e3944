/-
The text of a script, one statement a line, and its reading. A name begins with a letter and goes on to the
first character that is none of a name; a text stands between single quotes, with a backslash before each
quote and each backslash of it. What is written is read back, whatever the texts hold.
-/
import KeEngine.Cypher.Store
import Mathlib.Control.Monad.Basic

namespace Cypher

/-- Read something off the front. -/
abbrev Reader (α : Type) := StateT (List Char) Option α

/-! ## Names and texts -/

def isNameStart (c : Char) : Bool := c.isAlpha || c == '_' || decide (127 < c.toNat)

def isNameChar (c : Char) : Bool := isNameStart c || c.isDigit

def isName (s : String) : Bool :=
  match s.toList with
  | [] => false
  | c :: cs => isNameStart c && cs.all isNameChar

/-- Exactly these characters. -/
def expect (text : String) : Reader Unit := fun cs =>
  if text.toList <+: cs then some ((), cs.drop text.toList.length) else none

def readName : Reader String
  | [] => none
  | c :: cs => if isNameStart c then some (.ofList (c :: cs.takeWhile isNameChar), cs.dropWhile isNameChar) else none

/-- The character that an escape stands for. -/
def unescape : Char → Option Char
  | '\\' => some '\\'
  | '\'' => some '\''
  | '"' => some '"'
  | 'n' => some '\n'
  | 'r' => some '\r'
  | 't' => some '\t'
  | _ => none

/-- The characters up to the closing quote. -/
def readQuoted : List Char → Option (List Char × List Char)
  | [] | ['\\'] => none
  | '\'' :: cs => some ([], cs)
  | '\\' :: c :: cs => (unescape c).bind fun d => (readQuoted cs).map fun p => (d :: p.1, p.2)
  | c :: cs => (readQuoted cs).map fun p => (c :: p.1, p.2)

def readText : Reader String
  | '\'' :: cs => (readQuoted cs).map fun p => (.ofList p.1, p.2)
  | _ => none

def escapeChar (c : Char) : List Char := if c = '\\' ∨ c = '\'' then ['\\', c] else [c]

/-- A text between quotes. -/
def quote (s : String) : List Char := '\'' :: (s.toList.flatMap escapeChar ++ ['\''])

/-! ## Statements -/

section

variable (key : String)

/-- Clauses that set properties, as many as there are. -/
def readSets (clause : String) : Nat → Reader (List (String × String))
  | 0 => pure []
  | fuel + 1 => (do
      expect clause
      let k ← readName
      expect " = "
      let v ← readText
      let sets ← readSets clause fuel
      pure ((k, v) :: sets)) <|> pure []

def readNode (fuel : Nat) : Reader Statement := do
  expect "MERGE (n:"
  let label ← readName
  expect (" \x7b" ++ key ++ ": ")
  let id ← readText
  expect "\x7d)"
  let sets ← readSets " SET n." fuel
  expect ";\n"
  pure (.node ⟨label, id, sets⟩)

def readRel (fuel : Nat) : Reader Statement := do
  expect ("MATCH (a \x7b" ++ key ++ ": ")
  let source ← readText
  expect ("\x7d), (b \x7b" ++ key ++ ": ")
  let target ← readText
  expect "\x7d) MERGE (a)-[r:"
  let type ← readName
  expect "]->(b)"
  let sets ← readSets " SET r." fuel
  expect ";\n"
  pure (.rel ⟨source, target, type, sets⟩)

def readStatements : Nat → List Char → Option (List Statement)
  | _, [] => some []
  | 0, _ :: _ => none
  | fuel + 1, c :: cs => do
    let (statement, cs) ← (readNode key fuel <|> readRel key fuel) (c :: cs)
    let script ← readStatements fuel cs
    pure (statement :: script)

def readScript (text : String) : Option (List Statement) := readStatements key text.toList.length text.toList

/-- Execute a text on a store; nothing where it is no script. -/
def execText {A : Type} (s : Store A) (text : String) : Option (Store A) := (readScript key text).map (execAll key s)

/-! ## Writing -/

def setChars (clause : String) (kv : String × String) : List Char :=
  clause.toList ++ (kv.1.toList ++ (" = ".toList ++ quote kv.2))

def NodeMerge.chars (m : NodeMerge) : List Char :=
  "MERGE (n:".toList ++ (m.label.toList ++ ((" \x7b" ++ key ++ ": ").toList ++ (quote m.id ++ ("\x7d)".toList ++
    (m.sets.flatMap (setChars " SET n.") ++ ";\n".toList)))))

def RelMerge.chars (m : RelMerge) : List Char :=
  ("MATCH (a \x7b" ++ key ++ ": ").toList ++ (quote m.source ++ (("\x7d), (b \x7b" ++ key ++ ": ").toList ++
    (quote m.target ++ ("\x7d) MERGE (a)-[r:".toList ++ (m.type.toList ++ ("]->(b)".toList ++
      (m.sets.flatMap (setChars " SET r.") ++ ";\n".toList)))))))

def Statement.chars : Statement → List Char
  | .node m => m.chars key
  | .rel m => m.chars key

end

/-- Labels, types and properties are names. -/
def Statement.Named : Statement → Prop
  | .node m => isName m.label = true ∧ ∀ kv ∈ m.sets, isName kv.1 = true
  | .rel m => isName m.type = true ∧ ∀ kv ∈ m.sets, isName kv.1 = true

/-! ## What is written is read back -/

theorem expect_append (text : String) (rest : List Char) : expect text (text.toList ++ rest) = some ((), rest) := by
  unfold expect
  rw [if_pos (List.prefix_append _ _), List.drop_left]

theorem readName_append {s : String} {rest : List Char} (hs : isName s = true)
    (hrest : ∀ c ∈ rest.head?, isNameChar c = false) : readName (s.toList ++ rest) = some (s, rest) := by
  unfold isName at hs
  cases hlist : s.toList with
  | nil =>
    rw [hlist] at hs
    cases hs
  | cons c cs =>
    rw [hlist] at hs
    obtain ⟨hstart, hchars⟩ := Bool.and_eq_true_iff.1 hs
    have hall := List.all_eq_true.1 hchars
    have htake : (cs ++ rest).takeWhile isNameChar = cs := by
      rw [List.takeWhile_append_of_pos hall]
      cases rest with
      | nil => exact List.append_nil cs
      | cons d ds => rw [List.takeWhile_cons_of_neg (by rw [hrest d rfl]; exact Bool.false_ne_true), List.append_nil]
    have hdrop : (cs ++ rest).dropWhile isNameChar = rest := by
      rw [List.dropWhile_append_of_pos hall]
      cases rest with
      | nil => rfl
      | cons d ds => exact List.dropWhile_cons_of_neg (by rw [hrest d rfl]; exact Bool.false_ne_true)
    rw [List.cons_append, readName, if_pos hstart, htake, hdrop, ← hlist, String.ofList_toList]

theorem readQuoted_escape (c : Char) (cs : List Char) :
    readQuoted (escapeChar c ++ cs) = (readQuoted cs).map fun p => (c :: p.1, p.2) := by
  unfold escapeChar
  split
  · rename_i hc
    rcases hc with rfl | rfl
    · rfl
    · rfl
  · rename_i hc
    obtain ⟨hslash, hquote⟩ := not_or.1 hc
    rw [List.singleton_append]
    cases cs <;> simp [readQuoted, hslash]

theorem readQuoted_flatMap (rest : List Char) : ∀ cs : List Char,
    readQuoted (cs.flatMap escapeChar ++ '\'' :: rest) = some (cs, rest)
  | [] => by rw [List.flatMap_nil, List.nil_append, readQuoted]
  | c :: cs => by
    rw [List.flatMap_cons, List.append_assoc, readQuoted_escape, readQuoted_flatMap rest cs]
    rfl

theorem readText_quote (s : String) (rest : List Char) : readText (quote s ++ rest) = some (s, rest) := by
  have hquote : quote s ++ rest = '\'' :: (s.toList.flatMap escapeChar ++ '\'' :: rest) := by
    rw [quote, List.cons_append, List.append_assoc, List.singleton_append]
  rw [hquote, readText, readQuoted_flatMap, Option.map_some, String.ofList_toList]

theorem bind_run {α β : Type} {p : Reader α} {f : α → Reader β} {cs rest : List Char} {a : α}
    (h : p cs = some (a, rest)) : (p >>= f) cs = f a rest := by
  show (p cs).bind _ = _
  rw [h]
  rfl

theorem bind_none {α β : Type} {p : Reader α} {f : α → Reader β} {cs : List Char} (h : p cs = none) :
    (p >>= f) cs = none := by
  show (p cs).bind _ = _
  rw [h]
  rfl

theorem orElse_run {α : Type} (p q : Reader α) (cs : List Char) : (p <|> q) cs = (p cs <|> q cs) := rfl

theorem expect_none {text : String} {cs : List Char} (h : ¬ text.toList <+: cs) : expect text cs = none := if_neg h

/-- Text that begins with a character is no prefix of text that begins with another. -/
theorem not_prefix {ts cs : List Char} {t c : Char} (ht : ts.head? = some t) (hc : cs.head? = some c) (hne : t ≠ c) :
    ¬ ts <+: cs := by
  rintro ⟨rest, rfl⟩
  rw [List.head?_append, ht] at hc
  exact hne (Option.some.inj hc)

theorem head?_append_of_some {ts cs : List Char} {t : Char} (h : ts.head? = some t) : (ts ++ cs).head? = some t := by
  rw [List.head?_append, h]
  rfl

/-- A name ends where text begins with a character that is none of a name. -/
theorem readName_before {s text : String} {t : Char} (hs : isName s = true) (htext : text.toList.head? = some t)
    (ht : isNameChar t = false) (rest : List Char) :
    readName (s.toList ++ (text.toList ++ rest)) = some (s, text.toList ++ rest) := by
  refine readName_append hs fun c hc => ?_
  rw [head?_append_of_some htext] at hc
  rw [← Option.some.inj hc, ht]

theorem readSets_append {clause : String} {rest : List Char} (hend : ¬ clause.toList <+: rest) :
    ∀ {sets : List (String × String)} {fuel : Nat}, (∀ kv ∈ sets, isName kv.1 = true) → sets.length ≤ fuel →
      readSets clause fuel (sets.flatMap (setChars clause) ++ rest) = some (sets, rest)
  | [], 0, _, _ => rfl
  | [], fuel + 1, _, _ => by
    rw [List.flatMap_nil, List.nil_append, readSets, orElse_run, bind_none (expect_none hend)]
    rfl
  | kv :: sets, fuel + 1, hnames, hfuel => by
    have hequals : (" = ".toList).head? = some ' ' := rfl
    have hrest := readSets_append hend (fun p hp => hnames p (List.mem_cons_of_mem kv hp))
      (Nat.le_of_succ_le_succ hfuel)
    rw [List.flatMap_cons, setChars]
    simp only [List.append_assoc]
    rw [readSets, orElse_run, bind_run (expect_append clause _),
      bind_run (readName_before (hnames kv List.mem_cons_self) hequals rfl _), bind_run (expect_append " = " _),
      bind_run (readText_quote _ _), bind_run hrest]
    rfl

section

variable {key : String}

theorem readNode_append {m : NodeMerge} {rest : List Char} {fuel : Nat} (hnamed : (Statement.node m).Named)
    (hfuel : m.sets.length ≤ fuel) : readNode key fuel (m.chars key ++ rest) = some (.node m, rest) := by
  have hbrace : ((" \x7b" ++ key ++ ": ").toList).head? = some ' ' := by
    rw [String.toList_append, String.toList_append]
    exact head?_append_of_some (head?_append_of_some rfl)
  have hend : ¬ " SET n.".toList <+: ";\n".toList ++ rest :=
    not_prefix (t := ' ') (c := ';') rfl (head?_append_of_some rfl) (by decide)
  unfold NodeMerge.chars
  simp only [List.append_assoc]
  rw [readNode, bind_run (expect_append "MERGE (n:" _), bind_run (readName_before hnamed.1 hbrace rfl _),
    bind_run (expect_append (" \x7b" ++ key ++ ": ") _), bind_run (readText_quote _ _),
    bind_run (expect_append "\x7d)" _), bind_run (readSets_append hend hnamed.2 hfuel),
    bind_run (expect_append ";\n" _)]
  rfl

theorem readRel_append {m : RelMerge} {rest : List Char} {fuel : Nat} (hnamed : (Statement.rel m).Named)
    (hfuel : m.sets.length ≤ fuel) : readRel key fuel (m.chars key ++ rest) = some (.rel m, rest) := by
  have hbracket : ("]->(b)".toList).head? = some ']' := rfl
  have hend : ¬ " SET r.".toList <+: ";\n".toList ++ rest :=
    not_prefix (t := ' ') (c := ';') rfl (head?_append_of_some rfl) (by decide)
  unfold RelMerge.chars
  simp only [List.append_assoc]
  rw [readRel, bind_run (expect_append ("MATCH (a \x7b" ++ key ++ ": ") _), bind_run (readText_quote _ _),
    bind_run (expect_append ("\x7d), (b \x7b" ++ key ++ ": ") _), bind_run (readText_quote _ _),
    bind_run (expect_append "\x7d) MERGE (a)-[r:" _), bind_run (readName_before hnamed.1 hbracket rfl _),
    bind_run (expect_append "]->(b)" _), bind_run (readSets_append hend hnamed.2 hfuel),
    bind_run (expect_append ";\n" _)]
  rfl

/-- A `MATCH` is no `MERGE` of a node. -/
theorem readNode_rel {m : RelMerge} {rest : List Char} {fuel : Nat} :
    readNode key fuel (m.chars key ++ rest) = none := by
  refine bind_none (expect_none ?_)
  unfold RelMerge.chars
  rw [String.toList_append, String.toList_append]
  simp only [List.append_assoc]
  intro hprefix
  have htail : "ERGE (n:".toList <+: "ATCH (a \x7b".toList ++ _ := (List.cons_prefix_cons.1 hprefix).2
  exact not_prefix (t := 'E') (c := 'A') rfl (head?_append_of_some rfl) (by decide) htail

theorem readStatement_append {st : Statement} {rest : List Char} {fuel : Nat} (hnamed : st.Named)
    (hfuel : (st.chars key).length ≤ fuel + 1) :
    (readNode key fuel <|> readRel key fuel) (st.chars key ++ rest) = some (st, rest) := by
  have hsets : ∀ (clause : String) (sets : List (String × String)),
      sets.length ≤ (sets.flatMap (setChars clause)).length := by
    intro clause sets
    induction sets with
    | nil => exact Nat.zero_le _
    | cons kv sets ih =>
      rw [List.flatMap_cons, setChars, quote]
      simp only [List.length_append, List.length_cons]
      omega
  rw [orElse_run]
  cases st with
  | node m =>
    have hclauses := hsets " SET n." m.sets
    show (readNode key fuel (m.chars key ++ rest) <|> _) = _
    rw [readNode_append hnamed]
    · rfl
    · have hlength : (m.chars key).length ≤ fuel + 1 := hfuel
      unfold NodeMerge.chars quote at hlength
      simp only [List.length_append, List.length_cons] at hlength
      omega
  | rel m =>
    have hclauses := hsets " SET r." m.sets
    show (readNode key fuel (m.chars key ++ rest) <|> readRel key fuel (m.chars key ++ rest)) = _
    rw [readNode_rel, readRel_append hnamed]
    · rfl
    · have hlength : (m.chars key).length ≤ fuel + 1 := hfuel
      unfold RelMerge.chars quote at hlength
      simp only [List.length_append, List.length_cons] at hlength
      omega

theorem chars_pos (st : Statement) : 0 < (st.chars key).length := by
  cases st with
  | node m =>
    show 0 < (m.chars key).length
    unfold NodeMerge.chars quote
    simp only [List.length_append, List.length_cons]
    omega
  | rel m =>
    show 0 < (m.chars key).length
    unfold RelMerge.chars quote
    simp only [List.length_append, List.length_cons]
    omega

theorem readStatements_chars : ∀ {script : List Statement} {fuel : Nat}, (∀ st ∈ script, st.Named) →
    (script.flatMap (·.chars key)).length ≤ fuel → readStatements key fuel (script.flatMap (·.chars key)) = some script
  | [], fuel, _, _ => by
    rw [List.flatMap_nil]
    cases fuel <;> rfl
  | st :: script, fuel, hnamed, hfuel => by
    have hpos := @chars_pos key st
    rw [List.flatMap_cons] at hfuel ⊢
    rw [List.length_append] at hfuel
    cases fuel with
    | zero => omega
    | succ fuel =>
      have hrest := @readStatements_chars script fuel (fun x hx => hnamed x (List.mem_cons_of_mem st hx)) (by omega)
      have hst := @readStatement_append key st (script.flatMap (·.chars key)) fuel
        (hnamed st List.mem_cons_self) (by omega)
      obtain ⟨c, cs, hcons⟩ : ∃ c cs, st.chars key ++ script.flatMap (·.chars key) = c :: cs :=
        List.exists_cons_of_length_pos (by rw [List.length_append]; omega)
      rw [hcons, readStatements, ← hcons, hst]
      show (readStatements key fuel _).bind _ = _
      rw [hrest]
      rfl

/-- A script is read back from its text. -/
theorem readScript_chars {script : List Statement} (hnamed : ∀ st ∈ script, st.Named) :
    readScript key (.ofList (script.flatMap (·.chars key))) = some script := by
  rw [readScript, String.toList_ofList]
  exact readStatements_chars hnamed (Nat.le_refl _)

end

end Cypher
