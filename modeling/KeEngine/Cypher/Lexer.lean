/-
A lexer that knows nothing of the statements it reads. A text in single quotes ends at the first quote that no
backslash precedes, and a backslash takes the next character as it is; outside of texts there are words,
comments, white space and symbols, and a semicolon ends a statement. What is written of a script lexes, text
by text, to the tokens of its statements.
-/
import KeEngine.Cypher.Text

namespace Cypher

/-! ## Tokens -/

inductive Token
  | word (s : String)
  | text (s : String)
  | symbol (c : Char)
deriving DecidableEq

/-- What the lexer is in the middle of, with the characters read of it. -/
inductive Mode
  | plain
  | word (cs : List Char)
  | text (cs : List Char)
  | escape (cs : List Char)
  | slash
  | line
  | block (star : Bool)
deriving DecidableEq

/-- A character where nothing is open. -/
def start (c : Char) : Mode × List Token :=
  if c = '\'' then (.text [], [])
  else if c = '/' then (.slash, [])
  else if isNameChar c then (.word [c], [])
  else if c.isWhitespace then (.plain, [])
  else (.plain, [.symbol c])

/-- The next character: what is open after it, and the tokens that it ends. -/
def advance : Mode → Char → Mode × List Token
  | .plain, c => start c
  | .word cs, c => if isNameChar c then (.word (cs ++ [c]), []) else ((start c).1, .word (.ofList cs) :: (start c).2)
  | .text cs, c =>
    if c = '\'' then (.plain, [.text (.ofList cs)])
    else if c = '\\' then (.escape cs, [])
    else (.text (cs ++ [c]), [])
  -- whatever the character is
  | .escape cs, c => (.text (cs ++ [c]), [])
  | .slash, c =>
    if c = '/' then (.line, [])
    else if c = '*' then (.block false, [])
    else ((start c).1, .symbol '/' :: (start c).2)
  | .line, c => (if c = '\n' then .plain else .line, [])
  | .block star, c => (if star && c == '/' then .plain else .block (c == '*'), [])

def run : Mode → List Char → Mode × List Token
  | m, [] => (m, [])
  | m, c :: cs => ((run (advance m c).1 cs).1, (advance m c).2 ++ (run (advance m c).1 cs).2)

/-- The tokens that the end of the input ends; a text or a comment must not be open. -/
def finish : Mode → Option (List Token)
  | .plain | .line => some []
  | .word cs => some [.word (.ofList cs)]
  | .slash => some [.symbol '/']
  | .text _ | .escape _ | .block _ => none

def lex (text : String) : Option (List Token) :=
  (finish (run .plain text.toList).1).map ((run .plain text.toList).2 ++ ·)

/-- The tokens up to each semicolon; nothing may be left after the last. -/
def splitTokens : List Token → List Token → Option (List (List Token))
  | [], [] => some []
  | _ :: _, [] => none
  | before, t :: ts =>
    if t = .symbol ';' then (splitTokens [] ts).map (before :: ·) else splitTokens (before ++ [t]) ts

/-- The statements of a text, as tokens. -/
def lexStatements (text : String) : Option (List (List Token)) := (lex text).bind (splitTokens [])

/-- The texts among tokens. -/
def textsOf (ts : List Token) : List String :=
  ts.filterMap fun
    | .text s => some s
    | _ => none

/-! ## The tokens of a statement -/

def setTokens (name : String) (kv : String × String) : List Token :=
  [.word "SET", .word name, .symbol '.', .word kv.1, .symbol '=', .text kv.2]

section

variable (key : String)

def NodeMerge.tokens (m : NodeMerge) : List Token :=
  [.word "MERGE", .symbol '(', .word "n", .symbol ':', .word m.label, .symbol '\x7b', .word key, .symbol ':',
    .text m.id, .symbol '\x7d', .symbol ')'] ++ m.sets.flatMap (setTokens "n")

def RelMerge.tokens (m : RelMerge) : List Token :=
  [.word "MATCH", .symbol '(', .word "a", .symbol '\x7b', .word key, .symbol ':', .text m.source, .symbol '\x7d',
    .symbol ')', .symbol ',', .symbol '(', .word "b", .symbol '\x7b', .word key, .symbol ':', .text m.target,
    .symbol '\x7d', .symbol ')', .word "MERGE", .symbol '(', .word "a", .symbol ')', .symbol '-', .symbol '[',
    .word "r", .symbol ':', .word m.type, .symbol ']', .symbol '-', .symbol '>', .symbol '(', .word "b", .symbol ')'] ++
    m.sets.flatMap (setTokens "r")

def Statement.tokens : Statement → List Token
  | .node m => m.tokens key
  | .rel m => m.tokens key

/-- The texts that a statement carries. -/
def Statement.texts : Statement → List String
  | .node m => m.id :: m.sets.map (·.2)
  | .rel m => m.source :: m.target :: m.sets.map (·.2)

end

/-! ## Lexing piece by piece -/

theorem run_append : ∀ (m : Mode) (cs ds : List Char), run m (cs ++ ds) =
    ((run (run m cs).1 ds).1, (run m cs).2 ++ (run (run m cs).1 ds).2)
  | m, [], ds => rfl
  | m, c :: cs, ds => by
    rw [List.cons_append, run, run_append, run]
    simp only [List.append_assoc]

/-- Characters that lex to these tokens whatever follows, and leave nothing open. -/
def Lexes (cs : List Char) (ts : List Token) : Prop := run .plain cs = (.plain, ts)

theorem Lexes.append {cs ds : List Char} {ts us : List Token} (h : Lexes cs ts) (h' : Lexes ds us) :
    Lexes (cs ++ ds) (ts ++ us) := by
  unfold Lexes at h h' ⊢
  rw [run_append, h, h']

theorem Lexes.flatMap {α : Type} {cs : α → List Char} {ts : α → List Token} : ∀ {l : List α},
    (∀ a ∈ l, Lexes (cs a) (ts a)) → Lexes (l.flatMap cs) (l.flatMap ts)
  | [], _ => rfl
  | a :: l, h => by
    rw [List.flatMap_cons, List.flatMap_cons]
    exact (h a List.mem_cons_self).append (Lexes.flatMap fun b hb => h b (List.mem_cons_of_mem a hb))

/-- A word goes on as long as it can. -/
theorem run_word : ∀ {cs : List Char} (ds : List Char), (∀ c ∈ cs, isNameChar c = true) →
    run (.word ds) cs = (.word (ds ++ cs), [])
  | [], ds, _ => by rw [run, List.append_nil]
  | c :: cs, ds, h => by
    obtain ⟨hc, hcs⟩ := List.forall_mem_cons.1 h
    have hadvance : advance (.word ds) c = (.word (ds ++ [c]), []) := if_pos hc
    rw [run, hadvance, run_word (ds ++ [c]) hcs, List.append_assoc]
    rfl

theorem start_name {c : Char} (h : isNameChar c = true) : start c = (.word [c], []) := by
  have hquote : c ≠ '\'' := by
    rintro rfl
    cases h
  have hslash : c ≠ '/' := by
    rintro rfl
    cases h
  rw [start, if_neg hquote, if_neg hslash, if_pos h]

/-- A name before text that begins with a character of no name. -/
theorem Lexes.name {s : String} {cs : List Char} {c : Char} {ts : List Token} (hs : isName s = true)
    (hc : cs.head? = some c) (hname : isNameChar c = false) (h : Lexes cs ts) :
    Lexes (s.toList ++ cs) (.word s :: ts) := by
  unfold isName at hs
  cases hlist : s.toList with
  | nil =>
    rw [hlist] at hs
    cases hs
  | cons d ds =>
    rw [hlist] at hs
    obtain ⟨hstart, hall⟩ := Bool.and_eq_true_iff.1 hs
    have hd : isNameChar d = true := Bool.or_eq_true_iff.2 (.inl hstart)
    cases cs with
    | nil => cases hc
    | cons e cs =>
      cases hc
      have hword : run .plain (d :: ds) = (.word (d :: ds), []) := by
        have hadvance : advance .plain d = (.word [d], []) := start_name hd
        rw [run, hadvance, run_word [d] (List.all_eq_true.1 hall)]
        rfl
      -- the character after a name is read as if nothing were open
      have hend : advance (.word (d :: ds)) c = ((start c).1, .word s :: (start c).2) := by
        rw [advance, hname, if_neg Bool.false_ne_true, ← hlist, String.ofList_toList]
      unfold Lexes at h ⊢
      rw [run] at h
      obtain ⟨hmode, htokens⟩ := Prod.mk.inj h
      rw [run_append, hword, run, hend]
      exact Prod.ext hmode (congrArg (List.cons (Token.word s)) htokens)

/-- Escaped characters are read back, whatever they are. -/
theorem run_escaped : ∀ (cs ds : List Char), run (.text ds) (cs.flatMap escapeChar) = (.text (ds ++ cs), [])
  | [], ds => by rw [List.flatMap_nil, run, List.append_nil]
  | c :: cs, ds => by
    have hc : run (.text ds) (escapeChar c) = (.text (ds ++ [c]), []) := by
      unfold escapeChar
      split
      · rfl
      · rename_i hplain
        obtain ⟨hslash, hquote⟩ := not_or.1 hplain
        have hadvance : advance (.text ds) c = (.text (ds ++ [c]), []) := by
          rw [advance, if_neg hquote, if_neg hslash]
        rw [run, hadvance]
        rfl
    rw [List.flatMap_cons, run_append, hc, run_escaped cs (ds ++ [c]), List.append_assoc]
    rfl

theorem lexes_quote (s : String) : Lexes (quote s) [.text s] := by
  have htail : run (.text []) (s.toList.flatMap escapeChar ++ ['\'']) = (.plain, [.text s]) := by
    rw [run_append, run_escaped, List.nil_append]
    show (_, [Token.text (.ofList s.toList)]) = _
    rw [String.ofList_toList]
    rfl
  unfold Lexes quote
  rw [run]
  have hopen : advance .plain '\'' = (.text [], []) := rfl
  rw [hopen, htail]
  rfl

theorem lexes_set {clause name : String} (hclause : Lexes clause.toList [.word "SET", .word name, .symbol '.'])
    {kv : String × String} (hk : isName kv.1 = true) : Lexes (setChars clause kv) (setTokens name kv) := by
  have hequals : Lexes " = ".toList [.symbol '='] := rfl
  have hpair := Lexes.name (c := ' ') hk (head?_append_of_some rfl) rfl (hequals.append (lexes_quote kv.2))
  exact hclause.append hpair

/-! ## Lexing a script -/

section

variable {key : String}

/-- The key after a brace. -/
theorem lexes_key (hkey : isName key = true) {pre : String} {ts : List Token}
    (hpre : Lexes pre.toList ts) : Lexes (pre ++ key ++ ": ").toList (ts ++ [.word key, .symbol ':']) := by
  have hcolon : Lexes ": ".toList [.symbol ':'] := rfl
  rw [String.toList_append, String.toList_append, List.append_assoc]
  exact hpre.append (.name (c := ':') hkey rfl rfl hcolon)

theorem lexes_node (hkey : isName key = true) {m : NodeMerge} (h : (Statement.node m).Named) :
    Lexes (m.chars key) (m.tokens key ++ [.symbol ';']) := by
  have hhead : Lexes "MERGE (n:".toList [.word "MERGE", .symbol '(', .word "n", .symbol ':'] := rfl
  have hbrace : Lexes " \x7b".toList [.symbol '\x7b'] := rfl
  have hclose : Lexes "\x7d)".toList [.symbol '\x7d', .symbol ')'] := rfl
  have hclause : Lexes " SET n.".toList [.word "SET", .word "n", .symbol '.'] := rfl
  have hend : Lexes ";\n".toList [.symbol ';'] := rfl
  have hsets := Lexes.flatMap fun kv hkv => lexes_set hclause (h.2 kv hkv)
  have hrest := (lexes_key hkey hbrace).append ((lexes_quote m.id).append (hclose.append (hsets.append hend)))
  have hstart : ((" \x7b" ++ key ++ ": ").toList).head? = some ' ' := by
    rw [String.toList_append, String.toList_append]
    exact head?_append_of_some (head?_append_of_some rfl)
  have hstatement := hhead.append (.name h.1 (head?_append_of_some hstart) rfl hrest)
  unfold NodeMerge.tokens
  rw [List.append_assoc]
  exact hstatement

theorem lexes_rel (hkey : isName key = true) {m : RelMerge} (h : (Statement.rel m).Named) :
    Lexes (m.chars key) (m.tokens key ++ [.symbol ';']) := by
  have hhead : Lexes "MATCH (a \x7b".toList [.word "MATCH", .symbol '(', .word "a", .symbol '\x7b'] := rfl
  have hsecond : Lexes "\x7d), (b \x7b".toList
    [.symbol '\x7d', .symbol ')', .symbol ',', .symbol '(', .word "b", .symbol '\x7b'] := rfl
  have hmerge : Lexes "\x7d) MERGE (a)-[r:".toList [.symbol '\x7d', .symbol ')', .word "MERGE", .symbol '(', .word "a",
    .symbol ')', .symbol '-', .symbol '[', .word "r", .symbol ':'] := rfl
  have harrow : Lexes "]->(b)".toList
    [.symbol ']', .symbol '-', .symbol '>', .symbol '(', .word "b", .symbol ')'] := rfl
  have hclause : Lexes " SET r.".toList [.word "SET", .word "r", .symbol '.'] := rfl
  have hend : Lexes ";\n".toList [.symbol ';'] := rfl
  have hsets := Lexes.flatMap fun kv hkv => lexes_set hclause (h.2 kv hkv)
  have htype := Lexes.name (c := ']') h.1 (head?_append_of_some rfl) rfl (harrow.append (hsets.append hend))
  have hstatement := (lexes_key hkey hhead).append ((lexes_quote m.source).append
    ((lexes_key hkey hsecond).append ((lexes_quote m.target).append (hmerge.append htype))))
  unfold RelMerge.tokens
  rw [List.append_assoc]
  exact hstatement

theorem lexes_statement (hkey : isName key = true) {st : Statement} (h : st.Named) :
    Lexes (st.chars key) (st.tokens key ++ [.symbol ';']) := by
  cases st with
  | node m => exact lexes_node hkey h
  | rel m => exact lexes_rel hkey h

theorem splitTokens_append : ∀ {ts : List Token} (before rest : List Token), .symbol ';' ∉ ts →
    splitTokens before (ts ++ .symbol ';' :: rest) = (splitTokens [] rest).map ((before ++ ts) :: ·)
  | [], before, rest, _ => by
    rw [List.nil_append, splitTokens, if_pos rfl, List.append_nil]
  | t :: ts, before, rest, h => by
    obtain ⟨ht, hts⟩ := not_or.1 (mt List.mem_cons.2 h)
    rw [List.cons_append, splitTokens, if_neg (Ne.symm ht), splitTokens_append (before ++ [t]) rest hts,
      List.append_assoc, List.singleton_append]

theorem semicolon_not_mem_tokens (st : Statement) : .symbol ';' ∉ st.tokens key := by
  have hsets : ∀ (name : String) (sets : List (String × String)), Token.symbol ';' ∉ sets.flatMap (setTokens name) := by
    intro name sets hmem
    obtain ⟨kv, -, hkv⟩ := List.mem_flatMap.1 hmem
    simp [setTokens] at hkv
  cases st with
  | node m => simp [Statement.tokens, NodeMerge.tokens, hsets]
  | rel m => simp [Statement.tokens, RelMerge.tokens, hsets]

theorem splitTokens_script : ∀ script : List Statement,
    splitTokens [] (script.flatMap fun st => st.tokens key ++ [.symbol ';']) = some (script.map (·.tokens key))
  | [] => rfl
  | st :: script => by
    rw [List.flatMap_cons, List.append_assoc, List.singleton_append,
      splitTokens_append [] _ (semicolon_not_mem_tokens st), splitTokens_script script]
    rfl

theorem textsOf_tokens (st : Statement) : textsOf (st.tokens key) = st.texts := by
  have hsets : ∀ (name : String) (sets : List (String × String)),
      textsOf (sets.flatMap (setTokens name)) = sets.map (·.2) := by
    intro name sets
    unfold textsOf
    rw [List.filterMap_flatMap, List.map_eq_flatMap]
    rfl
  cases st with
  | node m =>
    show textsOf (_ ++ _) = _
    unfold textsOf at hsets ⊢
    rw [List.filterMap_append, hsets]
    rfl
  | rel m =>
    show textsOf (_ ++ _) = _
    unfold textsOf at hsets ⊢
    rw [List.filterMap_append, hsets]
    rfl

/-- A script is lexed back from its text, statement by statement. -/
theorem lexStatements_chars (hkey : isName key = true) {script : List Statement} (h : ∀ st ∈ script, st.Named) :
    lexStatements (.ofList (script.flatMap (·.chars key))) = some (script.map (·.tokens key)) := by
  have hrun : run .plain (script.flatMap (·.chars key)) =
      (.plain, script.flatMap fun st => st.tokens key ++ [.symbol ';']) :=
    Lexes.flatMap fun st hst => lexes_statement hkey (h st hst)
  rw [lexStatements, lex, String.toList_ofList, hrun]
  show splitTokens [] (_ ++ []) = _
  rw [List.append_nil, splitTokens_script]

end

end Cypher
