import Espalier.Grammar
import Espalier.Proofs.Grammar.Reading

/-!
# What a reader makes

`Parse.MakesIn` says what holds of all that a reader makes in given surroundings, wherever it
starts. There is a rule for each way to build a reader, and the nodes that a repetition makes have
what those of its items have.

Templates are the example that needs no more than these rules. A template is read piece by piece,
with a substitution between each piece and the next. So there is one piece more than there are
substitutions, and only the piece that ends the template is marked as its tail, whatever the
substitutions are read with (`Grammar.makesIn_template`).
-/

namespace Espalier.Parse

variable {α β σ : Type}

/-- What holds after a round of a repetition, whether another one follows or not. -/
def Round.Keeps (I : σ → Prop) : Round σ → Prop
  | .again s | .last s => I s

@[simp] theorem Round.keeps_again {I : σ → Prop} {s : σ} : (Round.again s).Keeps I ↔ I s := Iff.rfl

@[simp] theorem Round.keeps_last {I : σ → Prop} {s : σ} : (Round.last s).Keeps I ↔ I s := Iff.rfl

/-- What holds after a round of a repetition if another one follows, and what if none does. -/
def Round.EndsWith (I Q : σ → Prop) : Round σ → Prop
  | .again s => I s
  | .last s => Q s

/-- Whatever a reader makes in given surroundings satisfies a condition. -/
def MakesIn (env : Env) (p : Parse α) (Q : α → Prop) : Prop := ∀ st, Gives p env st fun a _ => Q a

namespace MakesIn

variable {env : Env} {p p' : Parse α} {f : α → Parse β} {Q R : α → Prop} {S : β → Prop}

theorem mono (h : MakesIn env p Q) (hQ : ∀ a, Q a → R a) : MakesIn env p R :=
  fun st => (h st).mono fun a _ => hQ a

/-- What a parser makes may satisfy two properties at once. -/
theorem and (h : MakesIn env p Q) (h' : MakesIn env p R) : MakesIn env p fun a => Q a ∧ R a :=
  fun st a st' heq => ⟨h st a st' heq, h' st a st' heq⟩

theorem ret {a : α} (h : Q a) : MakesIn env (pure a) Q := fun _ => .ret h

/-- What the second half makes may rest on what the first half made. -/
theorem bind (h : MakesIn env p Q) (hf : ∀ a, Q a → MakesIn env (f a) S) :
    MakesIn env (p >>= f) S :=
  fun st => .bind ((h st).mono fun a st' ha => hf a ha st')

/-- A step whose result does not matter. -/
theorem skip (hf : ∀ a, MakesIn env (f a) S) : MakesIn env (p >>= f) S :=
  fun _ => .bind fun a st' _ => hf a st'

/-- A look at the surroundings. -/
theorem read {f : Env → Parse β} (h : MakesIn env (f env) S) :
    MakesIn env (MonadReader.read >>= f) S :=
  fun st => .step rfl (h st)

theorem map {f : α → β} (h : MakesIn env p fun a => S (f a)) : MakesIn env (f <$> p) S :=
  fun st => .map (h st)

/-- A question whose answer only tells how to go on. -/
theorem ask {q : Parse Bool} (yes : MakesIn env p Q) (no : MakesIn env p' Q) :
    MakesIn env (q >>= fun b => if b = true then p else p') Q := by
  refine skip fun b => ?_
  split
  · exact yes
  · exact no

theorem fail {cause : SyntaxCause} {span : Span} : MakesIn env (Parse.fail cause span) Q :=
  fun _ => .fail

theorem failHere {cause : SyntaxCause} : MakesIn env (Parse.failHere cause) Q := fun _ => .failHere

theorem unexpected : MakesIn env Parse.unexpected Q := fun _ => .unexpected

/-- A result computed outside is made when it is there. -/
theorem ofExcept {x : Except SyntaxError α} (h : ∀ a, x = .ok a → Q a) :
    MakesIn env (MonadExcept.ofExcept x) Q :=
  fun _ => .ofExcept h

theorem withReader {change : Env → Env} (h : MakesIn (change env) p Q) :
    MakesIn env (withReader change p) Q :=
  h

theorem withIn {allow : Bool} (h : MakesIn { env with allowIn := allow } p Q) :
    MakesIn env (Parse.withIn allow p) Q :=
  h

theorem withinFunction {isAsync isGenerator : Bool}
    (h : MakesIn { env with inFunction := true, inAsync := isAsync, inGenerator := isGenerator }
      p Q) :
    MakesIn env (Parse.withinFunction isAsync isGenerator p) Q :=
  h

/-- What is read only if the answer to a question is yes. -/
theorem optional [HasNodes α] {P : Tree → Prop} {q : Parse Bool}
    (h : MakesIn env p fun a => ∀ t ∈ nodes a, P t) :
    MakesIn env (do if ← q then return some (← p) else return none) fun a =>
      ∀ t ∈ nodes a, P t := by
  refine ask (bind h fun a ha => ret ?_) (ret nofun)
  rw [nodes_some]
  exact ha

/-! ### Repetitions -/

/-- A loop makes what each round keeps. -/
theorem rounds {I : σ → Prop} {round : σ → Parse (Round σ)} {s : σ} (h : I s)
    (hround : ∀ s, I s → MakesIn env (round s) (Round.Keeps I)) :
    MakesIn env (repeatFrom round s) I :=
  fun _ => gives_repeatFrom h fun s st hs =>
    (hround s hs st).mono fun r _ hr => by cases r <;> exact hr

/-- What the last round makes, if the rounds before it keep an invariant. -/
theorem roundsUpTo {I Q : σ → Prop} {round : σ → Parse (Round σ)} {s : σ} (h : I s)
    (hround : ∀ s, I s → MakesIn env (round s) (Round.EndsWith I Q)) :
    MakesIn env (repeatFrom round s) Q :=
  fun _ => gives_repeatFrom_last h fun s st hs =>
    (hround s hs st).mono fun r _ hr => by cases r <;> exact hr

/-- What a reader that may be read again further on makes in any surroundings. -/
theorem furtherOn {p : Parse α → Parse α} {Q : Env → α → Prop}
    (h : ∀ q, (∀ env, MakesIn env q (Q env)) → ∀ env, MakesIn env (p q) (Q env)) (env : Env) :
    MakesIn env (furtherOn p) (Q env) := by
  have hwithin (room : Nat) : ∀ env, MakesIn env (furtherOnWithin p room) (Q env) := by
    induction room using Nat.strongRecOn with
    | ind room ih =>
      rw [furtherOnWithin]
      refine h _ fun env st a st' heq => ?_
      split at heq
      · next hlt => exact ih _ hlt env st a st' heq
      · exact (Gives.failHere (Q := fun _ _ => False) _ _ heq).elim
  exact fun st => hwithin (env.size - st.current.first.pos) env st

section

variable [HasNodes α] {P : Tree → Prop}

/-- The nodes of the items are those that the items make. -/
theorem itemsUntil {item : Parse α} (stop : Token.Kind → Bool)
    (h : MakesIn env item fun a => ∀ t ∈ nodes a, P t) :
    MakesIn env (itemsUntil stop item) fun items => ∀ t ∈ nodes items, P t := by
  refine bind (rounds (I := fun items => ∀ t ∈ nodes items, P t) nofun fun items hitems => ?_)
    fun items hitems => ret fun t ht => hitems t (mem_nodes_reverse.mp ht)
  refine skip fun k => ?_
  split
  · exact ret hitems
  · exact bind h fun a ha => ret (List.forall_mem_append.mpr ⟨ha, hitems⟩)

theorem itemsBefore {item : Parse (α × Bool)} (close : Punct)
    (h : MakesIn env item fun a => ∀ t ∈ nodes a.1, P t) :
    MakesIn env (itemsBefore close item) fun items => ∀ t ∈ nodes items, P t := by
  refine bind (rounds (I := fun items => ∀ t ∈ nodes items, P t) nofun fun items hitems => ?_)
    fun items hitems => ret fun t ht => hitems t (mem_nodes_reverse.mp ht)
  refine ask (ret hitems) (bind h fun a ha => ?_)
  have hmore : ∀ t ∈ nodes (a.1 :: items), P t := List.forall_mem_append.mpr ⟨ha, hitems⟩
  dsimp only
  split
  · exact ret hmore
  · exact ask (ret hmore) (ret hmore)

theorem itemsAfterCommas {item : Parse α} {first : List α} (hfirst : ∀ t ∈ nodes first, P t)
    (h : MakesIn env item fun a => ∀ t ∈ nodes a, P t) :
    MakesIn env (itemsAfterCommas first item) fun items => ∀ t ∈ nodes items, P t := by
  refine bind (rounds (I := fun items => ∀ t ∈ nodes items, P t) hfirst fun items hitems => ?_)
    fun items hitems => ret fun t ht => hitems t (mem_nodes_reverse.mp ht)
  exact ask (bind h fun a ha => ret (List.forall_mem_append.mpr ⟨ha, hitems⟩)) (ret hitems)

end

/-- What is one node. -/
theorem nodes [IsNode α] {P : Tree → Prop} (h : MakesIn env p fun a => P (IsNode.tree a)) :
    MakesIn env p fun a => ∀ t ∈ HasNodes.nodes a, P t :=
  h.mono fun _ ha => List.forall_mem_singleton.mpr ha

/-- What holds of all that a reader makes in the surroundings of a whole source holds of what it
reads from one. -/
theorem of_run {source : String} {options : ParserOptions} {a : α}
    (hp : MakesIn { options, size := source.utf8ByteSize, inAsync := options.isModule } p Q)
    (h : p.run source options = .ok a) : Q a := by
  simp only [run] at h
  split at h
  · next b st heq =>
    cases h
    exact hp _ _ _ heq
  · cases h

end MakesIn

end Espalier.Parse

/-! ### Templates -/

namespace Espalier

namespace Template

/-- There is a piece in front of each substitution and one behind the last. -/
def IsPaired (t : Template) : Prop := t.quasis.length = t.expressions.length + 1

/-- The last piece is marked as the tail, and no other one is. -/
def MarksTail (t : Template) : Prop :=
  ∃ init last, t.quasis = init ++ [last] ∧ last.tail = true ∧ ∀ q ∈ init, q.tail = false

end Template

namespace Grammar

open Parse

/-- The pieces and the substitutions that have been read of a template, the last ones first, if more
of them follow. -/
structure TemplateSoFar (read : List TemplateElement × List Expr) : Prop where
  paired : read.1.length = read.2.length + 1
  noTail : ∀ q ∈ read.1, q.tail = false

/-- All pieces and substitutions of a template, the last ones first. -/
structure TemplateRead (read : List TemplateElement × List Expr) : Prop where
  paired : read.1.length = read.2.length + 1
  tail : ∃ last more, read.1 = last :: more ∧ last.tail = true ∧ ∀ q ∈ more, q.tail = false

/-- Every template has one piece more than expressions, and its last piece alone is marked. -/
theorem makesIn_template (g : Grammar) {env : Env} :
    MakesIn env (template g) fun t => t.IsPaired ∧ t.MarksTail := by
  refine .skip fun start => .skip fun head => ?_
  split
  · exact .skip fun span => .ret ⟨rfl, [], _, rfl, rfl, List.forall_mem_nil _⟩
  · have hhead (cooked : String) : TemplateSoFar ([templateElement head cooked false 2], []) :=
      ⟨rfl, List.forall_mem_singleton.mpr rfl⟩
    refine .bind (Q := TemplateRead) (.roundsUpTo (hhead _) fun read h => ?_) fun read h =>
      .skip fun span => .ret ?_
    · -- A round reads an expression and the piece behind it, which tells whether it is the last.
      have hcount (e : Expr) (q : TemplateElement) :
          (q :: read.1).length = (e :: read.2).length + 1 := congrArg Nat.succ h.paired
      refine .skip fun e => .ask (.skip fun part => ?_) (.skip fun _ => .skip fun part => ?_)
      all_goals
        split
        · exact .ret ⟨hcount _ _, List.forall_mem_cons.mpr ⟨rfl, h.noTail⟩⟩
        · exact .ret ⟨hcount _ _, _, _, rfl, rfl, h.noTail⟩
        · exact .fail
        · exact .fail
    · -- the pieces were collected in reverse, the last one in front
      obtain ⟨last, more, hlast, htail, hmore⟩ := h.tail
      refine ⟨?_, more.reverse, last, ?_, htail, fun q hq => hmore q (List.mem_reverse.mp hq)⟩
      · rw [Template.IsPaired, List.length_reverse, List.length_reverse, h.paired]
      · rw [hlast, List.reverse_cons]
  · exact .fail

end Grammar

end Espalier
