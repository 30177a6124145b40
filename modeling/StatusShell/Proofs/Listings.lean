import StatusShell.Proofs.Lexis
import StatusShell.Proofs.Quotation
import StatusShell.Script.Listing

/-!
A listing determines the statements that it lists.  Its lines are entries, each
with a depth and a label, and an entry tells by itself where it ends.  From the
entries the tree is recovered by depth: a statement goes on as long as the entries
lie deeper than it, and beyond that only with the announcement of a second branch
at its own depth.
-/

namespace StatusShell

open Grammar Text

theorem append_inj_of_stops (charClass : Char → Bool) {run run' rest rest' : List Char}
    (hrun : ∀ c ∈ run, charClass c = true) (hrun' : ∀ c ∈ run', charClass c = true)
    (hrest : Stops charClass rest) (hrest' : Stops charClass rest')
    (heq : run ++ rest = run' ++ rest') : run = run' ∧ rest = rest' := by
  have htake := congrArg (List.takeWhile charClass) heq
  rw [List.takeWhile_append_of_pos hrun, List.takeWhile_append_of_pos hrun',
    takeWhile_of_stops hrest, takeWhile_of_stops hrest', List.append_nil, List.append_nil] at htake
  subst htake
  exact ⟨rfl, List.append_cancel_left heq⟩

namespace Command

/-- The name of the command has the characters of a path. -/
def HasPathName (call : Command) : Prop :=
  ∀ c ∈ call.name.toList, isPathChar c = true

instance (call : Command) : Decidable call.HasPathName :=
  List.decidableBAll (fun c => isPathChar c = true) call.name.toList

theorem arguments_delimited :
    Delimited (fun _ => True) fun arg : String => ' ' :: quotedChars arg.toList := by
  intro arg arg' rest rest' _ _ heq
  obtain ⟨-, heq⟩ := List.cons.inj heq
  obtain ⟨htext, hrest⟩ := quotedChars_delimited _ _ _ _ trivial trivial heq
  exact ⟨String.toList_inj.mp htext, hrest⟩

theorem stops_isPathChar_arguments (args : List String) (rest : List Char) :
    Stops isPathChar ((args.flatMap fun arg => ' ' :: quotedChars arg.toList) ++ '\n' :: rest) := by
  rcases args with _ | ⟨arg, args⟩
  · exact stops_cons_iff.mpr (by decide)
  · exact stops_cons_iff.mpr (by decide)

theorem eq_of_shown {call call' : Command} {rest rest' : List Char} (hname : call.HasPathName)
    (hname' : call'.HasPathName)
    (heq : call.shown ++ '\n' :: rest = call'.shown ++ '\n' :: rest') :
    call = call' ∧ rest = rest' := by
  rcases call with ⟨name, args⟩
  rcases call' with ⟨name', args'⟩
  simp only [shown, List.append_assoc] at heq
  obtain ⟨hnames, heq⟩ := append_inj_of_stops isPathChar hname hname'
    (stops_isPathChar_arguments args rest) (stops_isPathChar_arguments args' rest') heq
  have hend : ∀ (rest : List Char) (arg : String),
      ¬ ' ' :: quotedChars arg.toList <+: '\n' :: rest := by
    intro rest arg h
    exact absurd (List.cons_prefix_cons.mp h).1 (by decide)
  obtain ⟨hargs, hrest⟩ := arguments_delimited.flatMap (fun _ _ => trivial) (fun _ _ => trivial)
    (hend rest) (hend rest') heq
  obtain rfl : name = name' := String.toList_inj.mp hnames
  obtain rfl : args = args' := hargs
  exact ⟨rfl, (List.cons.inj hrest).2⟩

end Command

/-- The kinds of lines in a listing. -/
inductive LineKind where
  | comment
  | command
  | block
  | conditional
  | otherwise
  | loop
  deriving DecidableEq

namespace LineKind

def keyword : LineKind → List Char
  | .comment => "Comment ".toList
  | .command => "Command ".toList
  | .block => "Block".toList
  | .conditional => "If ".toList
  | .otherwise => "Else".toList
  | .loop => "While ".toList

theorem eq_of_keyword_isPrefix {kind kind' : LineKind} (h : kind.keyword <+: kind'.keyword) :
    kind = kind' := by
  revert h
  cases kind <;> cases kind' <;> decide

theorem keyword_delimited : Delimited (fun _ => True) keyword := by
  intro kind kind' rest rest' _ _ heq
  have hkind : kind = kind' := by
    have hleft : kind.keyword <+: kind'.keyword ++ rest' := ⟨rest, heq⟩
    have hright : kind'.keyword <+: kind'.keyword ++ rest' := ⟨rest', rfl⟩
    rcases List.prefix_or_prefix_of_prefix hleft hright with h | h
    · exact eq_of_keyword_isPrefix h
    · exact (eq_of_keyword_isPrefix h).symm
  subst hkind
  exact ⟨rfl, List.append_cancel_left heq⟩

theorem stops_keyword (kind : LineKind) (rest : List Char) :
    Stops (· == ' ') (kind.keyword ++ rest) := by
  cases kind <;> exact stops_cons_iff.mpr (by decide)

end LineKind

/-- What a line of a listing shows. -/
inductive Label where
  | comment (text : String)
  | command (call : Command)
  | block
  | conditional (predicate : Command)
  | otherwise
  | loop (predicate : Command)

namespace Label

def kind : Label → LineKind
  | .comment _ => .comment
  | .command _ => .command
  | .block => .block
  | .conditional _ => .conditional
  | .otherwise => .otherwise
  | .loop _ => .loop

/-- What stands on the line behind the keyword. -/
def detail : Label → List Char
  | .comment text => quotedChars text.toList
  | .command call => call.shown
  | .conditional predicate => predicate.shown
  | .loop predicate => predicate.shown
  | _ => []

/-- The command that the label shows, if it shows one, has a path for its name. -/
def HasPathName : Label → Prop
  | .command call => call.HasPathName
  | .conditional predicate => predicate.HasPathName
  | .loop predicate => predicate.HasPathName
  | _ => True

theorem eq_of_detail {label label' : Label} {rest rest' : List Char}
    (hname : label.HasPathName) (hname' : label'.HasPathName) (hkind : label.kind = label'.kind)
    (heq : label.detail ++ '\n' :: rest = label'.detail ++ '\n' :: rest') :
    label = label' ∧ rest = rest' := by
  rcases label with text | call | _ | call | _ | call <;>
    rcases label' with text' | call' | _ | call' | _ | call' <;> cases hkind
  · obtain ⟨htext, hrest⟩ := quotedChars_delimited _ _ _ _ trivial trivial heq
    exact ⟨congrArg comment (String.toList_inj.mp htext), (List.cons.inj hrest).2⟩
  · obtain ⟨hcall, hrest⟩ := Command.eq_of_shown hname hname' heq
    exact ⟨by rw [hcall], hrest⟩
  · exact ⟨rfl, (List.cons.inj heq).2⟩
  · obtain ⟨hcall, hrest⟩ := Command.eq_of_shown hname hname' heq
    exact ⟨by rw [hcall], hrest⟩
  · exact ⟨rfl, (List.cons.inj heq).2⟩
  · obtain ⟨hcall, hrest⟩ := Command.eq_of_shown hname hname' heq
    exact ⟨by rw [hcall], hrest⟩

end Label

/-- A line of a listing. -/
structure Entry where
  depth : Nat
  label : Label

namespace Entry

def line (entry : Entry) : List Char :=
  Node.indented entry.depth (entry.label.kind.keyword ++ entry.label.detail)

theorem line_delimited :
    Delimited (fun entry : Entry => entry.label.HasPathName) fun entry => entry.line ++ ['\n'] := by
  intro entry entry' rest rest' hname hname' heq
  rcases entry with ⟨depth, label⟩
  rcases entry' with ⟨depth', label'⟩
  simp only [line, Node.indented, List.append_assoc, List.singleton_append] at heq
  obtain ⟨hblanks, heq⟩ := append_inj_of_stops (· == ' ') (by simp) (by simp)
    (label.kind.stops_keyword _) (label'.kind.stops_keyword _) heq
  obtain ⟨hkind, heq⟩ := LineKind.keyword_delimited _ _ _ _ trivial trivial heq
  obtain ⟨rfl, hrest⟩ := Label.eq_of_detail hname hname' hkind heq
  have hdepth := congrArg List.length hblanks
  simp only [List.length_replicate] at hdepth
  obtain rfl : depth = depth' := by omega
  exact ⟨rfl, hrest⟩

end Entry

namespace Node

mutual

/-- The entries of a statement at a depth. -/
def entries (depth : Nat) : Node → List Entry
  | .comment text => [⟨depth, .comment text⟩]
  | .command call => [⟨depth, .command call⟩]
  | .block statements => ⟨depth, .block⟩ :: entriesAll (depth + 1) statements
  | .ifThen predicate branch => ⟨depth, .conditional predicate⟩ :: entries (depth + 1) branch
  | .ifElse predicate branch otherwise =>
      ⟨depth, .conditional predicate⟩ ::
        (entries (depth + 1) branch ++ ⟨depth, .otherwise⟩ :: entries (depth + 1) otherwise)
  | .loop predicate body => ⟨depth, .loop predicate⟩ :: entries (depth + 1) body
  | .stray _ => []

/-- The entries of a statement list at a depth. -/
def entriesAll (depth : Nat) : List Node → List Entry
  | [] => []
  | statement :: statements => entries depth statement ++ entriesAll depth statements

end

mutual

theorem lines_eq_map_line (depth : Nat) : (node : Node) →
    lines depth node = (entries depth node).map Entry.line
  | .comment _ => rfl
  | .command _ => rfl
  | .block statements => by
      rw [lines, entries, List.map_cons, linesAll_eq_map_line (depth + 1) statements]
      rfl
  | .ifThen _ branch => by
      rw [lines, entries, List.map_cons, lines_eq_map_line (depth + 1) branch]
      rfl
  | .ifElse _ branch otherwise => by
      rw [lines, entries, List.map_cons, List.map_append, List.map_cons,
        lines_eq_map_line (depth + 1) branch, lines_eq_map_line (depth + 1) otherwise]
      rfl
  | .loop _ body => by
      rw [lines, entries, List.map_cons, lines_eq_map_line (depth + 1) body]
      rfl
  | .stray _ => rfl

theorem linesAll_eq_map_line (depth : Nat) : (statements : List Node) →
    linesAll depth statements = (entriesAll depth statements).map Entry.line
  | [] => rfl
  | statement :: statements => by
      rw [linesAll, entriesAll, List.map_append, lines_eq_map_line depth statement,
        linesAll_eq_map_line depth statements]

end

mutual

theorem hasPathName_of_mem_entries (depth : Nat) : (node : Node) →
    (∀ call ∈ node.commands, call.HasPathName) →
    ∀ entry ∈ entries depth node, entry.label.HasPathName
  | .comment _, _ => by simp [entries, Label.HasPathName]
  | .command call, h => by
      simpa [entries, Label.HasPathName] using h call (List.mem_singleton_self call)
  | .block statements, h => by
      rw [entries, List.forall_mem_cons]
      exact ⟨trivial, hasPathName_of_mem_entriesAll (depth + 1) statements h⟩
  | .ifThen predicate branch, h => by
      obtain ⟨hpredicate, hbranch⟩ := List.forall_mem_cons.mp h
      rw [entries, List.forall_mem_cons]
      exact ⟨hpredicate, hasPathName_of_mem_entries (depth + 1) branch hbranch⟩
  | .ifElse predicate branch otherwise, h => by
      obtain ⟨hpredicate, hbranches⟩ := List.forall_mem_cons.mp h
      obtain ⟨hbranch, hotherwise⟩ := List.forall_mem_append.mp hbranches
      rw [entries, List.forall_mem_cons, List.forall_mem_append, List.forall_mem_cons]
      exact ⟨hpredicate, hasPathName_of_mem_entries (depth + 1) branch hbranch, trivial,
        hasPathName_of_mem_entries (depth + 1) otherwise hotherwise⟩
  | .loop predicate body, h => by
      obtain ⟨hpredicate, hbody⟩ := List.forall_mem_cons.mp h
      rw [entries, List.forall_mem_cons]
      exact ⟨hpredicate, hasPathName_of_mem_entries (depth + 1) body hbody⟩
  | .stray _, _ => by simp [entries]

theorem hasPathName_of_mem_entriesAll (depth : Nat) : (statements : List Node) →
    (∀ call ∈ allCommands statements, call.HasPathName) →
    ∀ entry ∈ entriesAll depth statements, entry.label.HasPathName
  | [], _ => by simp [entriesAll]
  | statement :: statements, h => by
      obtain ⟨hstatement, hstatements⟩ := List.forall_mem_append.mp h
      rw [entriesAll, List.forall_mem_append]
      exact ⟨hasPathName_of_mem_entries depth statement hstatement,
        hasPathName_of_mem_entriesAll depth statements hstatements⟩

end

/-- The entries leave a statement list at the depth. -/
def Leaves (depth : Nat) (rest : List Entry) : Prop :=
  ∀ entry ∈ rest.head?, entry.depth < depth

/-- The entries leave a statement at the depth. -/
def Passes (depth : Nat) (rest : List Entry) : Prop :=
  ∀ entry ∈ rest.head?, entry.depth ≤ depth ∧
    (entry.depth = depth → entry.label.kind ≠ .otherwise)

variable {depth : Nat} {rest rest' : List Entry}

theorem Passes.leaves (h : Passes depth rest) : Leaves (depth + 1) rest :=
  fun entry hentry => Nat.lt_succ_of_le (h entry hentry).1

theorem Leaves.passes (h : Leaves depth rest) : Passes depth rest := by
  intro entry hentry
  have hdepth := h entry hentry
  exact ⟨by omega, by omega⟩

theorem passes_otherwise (depth : Nat) (rest : List Entry) :
    Passes (depth + 1) (⟨depth, .otherwise⟩ :: rest) := by
  intro entry hentry
  cases hentry
  exact ⟨Nat.le_succ depth, fun h => absurd h (Nat.ne_of_lt (Nat.lt_succ_self depth))⟩

theorem not_passes_otherwise (depth : Nat) (rest : List Entry) :
    ¬ Passes depth (⟨depth, .otherwise⟩ :: rest) :=
  fun h => (h _ rfl).2 rfl rfl

theorem exists_entries_eq_cons {node : Node} (h : node.stray? = none) (depth : Nat) :
    ∃ label more, entries depth node = ⟨depth, label⟩ :: more ∧ label.kind ≠ .otherwise := by
  rcases node with text | call | statements | ⟨predicate, branch⟩ |
    ⟨predicate, branch, otherwise⟩ | ⟨predicate, body⟩ | text
  case stray => cases h
  all_goals exact ⟨_, _, rfl, nofun⟩

theorem not_leaves_entriesAll {statement : Node} {statements : List Node}
    (h : firstStray? (statement :: statements) = none) :
    ¬ Leaves depth (entriesAll depth (statement :: statements) ++ rest) := by
  rw [firstStray?, Option.or_eq_none_iff] at h
  obtain ⟨label, more, hentries, -⟩ := exists_entries_eq_cons h.1 depth
  rw [entriesAll, hentries]
  exact fun hleaves => Nat.lt_irrefl depth (hleaves _ rfl)

theorem passes_entriesAll {statements : List Node} (h : firstStray? statements = none)
    (hrest : Leaves depth rest) : Passes depth (entriesAll depth statements ++ rest) := by
  rcases statements with _ | ⟨statement, statements⟩
  · exact hrest.passes
  · rw [firstStray?, Option.or_eq_none_iff] at h
    obtain ⟨label, more, hentries, hkind⟩ := exists_entries_eq_cons h.1 depth
    intro entry hentry
    rw [entriesAll, hentries] at hentry
    cases hentry
    exact ⟨Nat.le_refl depth, fun _ => hkind⟩

theorem entries_ifElse_append (depth : Nat) (predicate : Command) (branch otherwise : Node)
    (rest : List Entry) :
    entries depth (.ifElse predicate branch otherwise) ++ rest =
      ⟨depth, .conditional predicate⟩ :: (entries (depth + 1) branch ++
        ⟨depth, .otherwise⟩ :: (entries (depth + 1) otherwise ++ rest)) := by
  rw [entries, List.cons_append, List.append_assoc, List.cons_append]

mutual

/-- The entries of a statement determine it, and where they end. -/
theorem eq_of_entries (depth : Nat) : (node node' : Node) → (rest rest' : List Entry) →
    node.stray? = none → node'.stray? = none → Passes depth rest → Passes depth rest' →
    entries depth node ++ rest = entries depth node' ++ rest' → node = node' ∧ rest = rest'
  | .comment _, node', _, _, _, h', _, _, heq => by
      cases node' with
      | comment text' =>
          cases heq
          exact ⟨rfl, rfl⟩
      | stray => cases h'
      | _ => cases heq
  | .command _, node', _, _, _, h', _, _, heq => by
      cases node' with
      | command call' =>
          cases heq
          exact ⟨rfl, rfl⟩
      | stray => cases h'
      | _ => cases heq
  | .block statements, node', rest, rest', h, h', hrest, hrest', heq => by
      cases node' with
      | block statements' =>
          obtain ⟨-, htail⟩ := List.cons.inj heq
          obtain ⟨hstatements, hends⟩ := eq_of_entriesAll (depth + 1) statements statements' rest
            rest' h h' hrest.leaves hrest'.leaves htail
          exact ⟨by rw [hstatements], hends⟩
      | stray => cases h'
      | _ => cases heq
  | .ifThen _ branch, node', rest, rest', h, h', hrest, hrest', heq => by
      cases node' with
      | ifThen predicate' branch' =>
          obtain ⟨hhead, htail⟩ := List.cons.inj heq
          obtain ⟨hbranch, hends⟩ := eq_of_entries (depth + 1) branch branch' rest rest' h h'
            hrest.leaves.passes hrest'.leaves.passes htail
          cases hhead
          exact ⟨by rw [hbranch], hends⟩
      | ifElse predicate' branch' otherwise' =>
          rw [stray?, Option.or_eq_none_iff] at h'
          rw [entries_ifElse_append] at heq
          obtain ⟨-, htail⟩ := List.cons.inj heq
          obtain ⟨-, hends⟩ := eq_of_entries (depth + 1) branch branch' rest _ h h'.1
            hrest.leaves.passes (passes_otherwise depth _) htail
          exact (not_passes_otherwise depth _ (hends ▸ hrest)).elim
      | stray => cases h'
      | _ => cases heq
  | .ifElse _ branch otherwise, node', rest, rest', h, h', hrest, hrest', heq => by
      rw [stray?, Option.or_eq_none_iff] at h
      cases node' with
      | ifThen predicate' branch' =>
          rw [entries_ifElse_append] at heq
          obtain ⟨-, htail⟩ := List.cons.inj heq
          obtain ⟨-, hends⟩ := eq_of_entries (depth + 1) branch branch' _ rest' h.1 h'
            (passes_otherwise depth _) hrest'.leaves.passes htail
          exact (not_passes_otherwise depth _ (hends ▸ hrest')).elim
      | ifElse predicate' branch' otherwise' =>
          rw [stray?, Option.or_eq_none_iff] at h'
          rw [entries_ifElse_append, entries_ifElse_append] at heq
          obtain ⟨hhead, htail⟩ := List.cons.inj heq
          obtain ⟨hbranch, htail⟩ := eq_of_entries (depth + 1) branch branch' _ _ h.1 h'.1
            (passes_otherwise depth _) (passes_otherwise depth _) htail
          obtain ⟨hotherwise, hends⟩ := eq_of_entries (depth + 1) otherwise otherwise' rest rest'
            h.2 h'.2 hrest.leaves.passes hrest'.leaves.passes (List.cons.inj htail).2
          cases hhead
          exact ⟨by rw [hbranch, hotherwise], hends⟩
      | stray => cases h'
      | _ => cases heq
  | .loop _ body, node', rest, rest', h, h', hrest, hrest', heq => by
      cases node' with
      | loop predicate' body' =>
          obtain ⟨hhead, htail⟩ := List.cons.inj heq
          obtain ⟨hbody, hends⟩ := eq_of_entries (depth + 1) body body' rest rest' h h'
            hrest.leaves.passes hrest'.leaves.passes htail
          cases hhead
          exact ⟨by rw [hbody], hends⟩
      | stray => cases h'
      | _ => cases heq
  | .stray _, _, _, _, h, _, _, _, _ => by cases h

theorem eq_of_entriesAll (depth : Nat) : (statements statements' : List Node) →
    (rest rest' : List Entry) → firstStray? statements = none → firstStray? statements' = none →
    Leaves depth rest → Leaves depth rest' →
    entriesAll depth statements ++ rest = entriesAll depth statements' ++ rest' →
    statements = statements' ∧ rest = rest'
  | [], [], _, _, _, _, _, _, heq => ⟨rfl, heq⟩
  | [], _ :: _, rest, _, _, h', hrest, _, heq => by
      have hleaves : Leaves depth (entriesAll depth [] ++ rest) := hrest
      rw [heq] at hleaves
      exact (not_leaves_entriesAll h' hleaves).elim
  | _ :: _, [], _, rest', h, _, _, hrest', heq => by
      have hleaves : Leaves depth (entriesAll depth [] ++ rest') := hrest'
      rw [← heq] at hleaves
      exact (not_leaves_entriesAll h hleaves).elim
  | statement :: statements, statement' :: statements', rest, rest', h, h', hrest, hrest', heq => by
      rw [firstStray?, Option.or_eq_none_iff] at h h'
      rw [entriesAll, entriesAll, List.append_assoc, List.append_assoc] at heq
      obtain ⟨hhead, htail⟩ := eq_of_entries depth statement statement' _ _ h.1 h'.1
        (passes_entriesAll h.2 hrest) (passes_entriesAll h'.2 hrest') heq
      obtain ⟨hstatements, hends⟩ := eq_of_entriesAll depth statements statements' _ _ h.2 h'.2
        hrest hrest' htail
      exact ⟨by rw [hhead, hstatements], hends⟩

end

end Node

theorem listing_eq_ofList (nodes : List Node) :
    listing nodes =
      String.ofList ((Node.entriesAll 0 nodes).flatMap fun entry => entry.line ++ ['\n']) := by
  rw [listing, Node.linesAll_eq_map_line, List.flatMap_map]

/-- A listing determines the statements that it lists, if the names of their
programs are paths.  Nothing is asked of arguments and comments, nor of how the
statements are nested; all of them can be listed. -/
theorem listing_determines (nodes nodes' : List Node) (hstray : Node.firstStray? nodes = none)
    (hstray' : Node.firstStray? nodes' = none)
    (hnames : ∀ call ∈ Node.allCommands nodes, call.HasPathName)
    (hnames' : ∀ call ∈ Node.allCommands nodes', call.HasPathName) :
    (∃ text, listing? nodes = .ok text) ∧ (listing? nodes = listing? nodes' → nodes = nodes') := by
  rw [listing?, listing?, hstray, hstray']
  refine ⟨⟨_, rfl⟩, fun h => ?_⟩
  have htext := Except.ok.inj h
  rw [listing_eq_ofList, listing_eq_ofList, String.ofList_inj] at htext
  have hentries : Node.entriesAll 0 nodes = Node.entriesAll 0 nodes' := by
    have hend : ∀ entry : Entry, ¬ entry.line ++ ['\n'] <+: [] := by simp
    refine (Entry.line_delimited.flatMap (Node.hasPathName_of_mem_entriesAll 0 nodes hnames)
      (Node.hasPathName_of_mem_entriesAll 0 nodes' hnames') hend hend ?_).1
    rw [htext]
  refine (Node.eq_of_entriesAll 0 nodes nodes' [] [] hstray hstray' nofun nofun ?_).1
  rw [hentries]

/-- One and the same second branch, once for the inner conditional and once for
the outer one. -/
theorem listing_determines_dangling_else :
    let inner : List Node := [.ifThen ⟨"a", []⟩
      (.ifElse ⟨"b", ["it's", "\""]⟩ (.command ⟨"c", []⟩) (.comment "\t\x7f\u2028"))]
    let outer : List Node := [.ifElse ⟨"a", []⟩
      (.ifThen ⟨"b", ["it's", "\""]⟩ (.command ⟨"c", []⟩)) (.comment "\t\x7f\u2028")]
    (∃ text, listing? inner = .ok text) ∧ listing? inner ≠ listing? outer := by
  intro inner outer
  obtain ⟨hlisted, hsame⟩ := listing_determines inner outer (by decide) (by decide) (by decide)
    (by decide)
  refine ⟨hlisted, fun h => ?_⟩
  exact absurd (hsame h) (by decide)

end StatusShell
