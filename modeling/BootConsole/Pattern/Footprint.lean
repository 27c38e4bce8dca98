import BootConsole.Pattern.Expr
import BootConsole.Pattern.Spelling

/-!
# The memory of an automaton

A pattern is refused if an automaton for it would take too much memory, read forwards or backwards.
The automaton is not built: `Footprint.measure` counts the nodes that it would have and their bytes.
A node takes 32 bytes, and more for the ways that lead on from it: 8 for each span of bytes, 4 for
each way that takes none. Characters beyond ASCII share nodes where their spellings agree, and words
that are alternatives share nodes where they begin alike.
-/

namespace BootConsole.Pattern

structure Footprint where
  nodes : Nat
  bytes : Nat
  deriving DecidableEq, Repr

inductive Direction where
  | forwards
  | backwards
  deriving DecidableEq, Repr

namespace Footprint

def limit : Nat := 10 * 1024 * 1024

def exceeds (footprint : Footprint) : Bool :=
  limit < footprint.bytes

def blank : Footprint := ⟨0, 0⟩

def node (footprint : Footprint) : Footprint :=
  ⟨footprint.nodes + 1, footprint.bytes + 32⟩

def way (footprint : Footprint) : Footprint :=
  { footprint with bytes := footprint.bytes + 4 }

def fork (ways : Nat) (footprint : Footprint) : Footprint :=
  ⟨footprint.nodes + 1, footprint.bytes + (32 + 4 * ways)⟩

def table (spans : Nat) (footprint : Footprint) : Footprint :=
  ⟨footprint.nodes + 1, footprint.bytes + (32 + 8 * spans)⟩

def copies (part : Footprint → Footprint) : Nat → Footprint → Footprint
  | 0, footprint => footprint
  | count + 1, footprint =>
      if footprint.exceeds then footprint else copies part count (part footprint)

/-! ## Shared nodes -/

structure Shared where
  place : Nat
  key : List Nat
  node : Nat
  deriving DecidableEq, Repr

/-- The nodes that can be used again. They have `places` places, of which a key can take one, and
in each only the latest is found. -/
structure Shelf where
  places : Nat
  /-- The latest first. -/
  kept : List Shared
  deriving DecidableEq, Repr

def Shelf.place (shelf : Shelf) (key : List Nat) : Nat :=
  let hash := key.foldl (fun hash number => (hash ^^^ UInt64.ofNat number) * 1099511628211)
    (14695981039346656037 : UInt64)
  hash.toNat % shelf.places

structure Sharing where
  shelf : Shelf
  footprint : Footprint
  deriving DecidableEq, Repr

def Sharing.nodeFor (key : List Nat) (make : Footprint → Footprint) (sharing : Sharing) :
    Nat × Sharing :=
  let place := sharing.shelf.place key
  let fresh := sharing.footprint.nodes
  let made : Nat × Sharing :=
    (fresh,
      ⟨{ sharing.shelf with kept := ⟨place, key, fresh⟩ :: sharing.shelf.kept },
        make sharing.footprint⟩)
  match sharing.shelf.kept.find? (·.place = place) with
  | some shared => if shared.key = key then (shared.node, sharing) else made
  | none => made

/-! ## Sets of characters -/

def byFirst : List Spelling → List (ByteSpan × List Spelling)
  | [] => []
  | [] :: rest => byFirst rest
  | (first :: behind) :: rest =>
      match byFirst rest with
      | [] => [(first, [behind])]
      | (next, others) :: groups =>
          if first = next then (first, behind :: others) :: groups
          else (first, [behind]) :: (next, others) :: groups

def spellingNode (target : Nat) : (places : Nat) → List Spelling → Sharing → Nat × Sharing
  | 0, _, sharing => (target, sharing)
  | places + 1, spellings, sharing =>
      let (key, sharing) := (byFirst spellings).foldl (fun (key, sharing) (first, behind) =>
        let (next, sharing) :=
          if behind.all List.isEmpty then (target, sharing)
          else spellingNode target places behind sharing
        (key ++ [first.low.toNat, first.high.toNat, next], sharing)) ([], sharing)
      sharing.nodeFor key (table (key.length / 3))

/-- One of the characters of a set, the bytes in order. Spellings that end alike share nodes. -/
def spellForwards (spellings : List Spelling) (footprint : Footprint) : Footprint :=
  (spellingNode footprint.nodes 4 spellings ⟨⟨10000, []⟩, footprint.node⟩).2.footprint

/-- One of the characters of a set, the bytes in reverse. Spellings that begin alike share nodes. -/
def spellBackwards (spellings : List Spelling) (footprint : Footprint) : Footprint :=
  let last := footprint.nodes + 1
  let spell (sharing : Sharing) (spelling : Spelling) : Sharing :=
    (spelling.foldl (fun (next, sharing) span =>
      sharing.nodeFor [next, span.low.toNat, span.high.toNat] node) (last, sharing)).2
  (spellings.foldl spell ⟨⟨1000, []⟩, (footprint.fork spellings.length).node⟩).footprint

def byteSet (set : CharSet) (footprint : Footprint) : Footprint :=
  footprint.node.table set.ranges.length

def characterSet (direction : Direction) (set : CharSet) (footprint : Footprint) : Footprint :=
  if set.isAscii then footprint.byteSet set
  else
    match direction with
    | .forwards => footprint.spellForwards (Spelling.ofSet set)
    | .backwards => footprint.spellBackwards (Spelling.ofSet set)

/-! ## Words -/

/-- Words in their order, cut into runs at the words that have come to their end. Before anything
else follows, several ends count once. -/
def runs (words : List Bytes) : List (List Bytes) :=
  let words := match words with
    | [] :: rest => [] :: rest.dropWhile List.isEmpty
    | words => words
  words.foldr (fun word runs =>
    match word, runs with
    | [], runs => [] :: runs
    | word, run :: runs => (word :: run) :: runs
    | word, [] => [[word]]) [[]]

def firstBytes (words : List Bytes) : Bytes :=
  (words.filterMap List.head?).eraseDups

def behind (words : List Bytes) (byte : UInt8) : List Bytes :=
  words.filterMap fun word =>
    match word with
    | [] => none
    | first :: rest => if first = byte then some rest else none

/-- The nodes where words begin: one for each run that is not empty, and one that leads to them
and to the end. -/
def wordNodes (footprint : Footprint) (words : List Bytes) : Footprint :=
  let sizes := (runs words).map fun run => (firstBytes run).length
  let filled := sizes.filter (0 < ·)
  let tables := filled.foldl (fun footprint size =>
    if size = 1 then footprint.node else footprint.table size) footprint
  tables.fork (filled.length + (sizes.length - 1))

def wordTree : (depth : Nat) → List (List Bytes) → Footprint → Footprint
  | 0, _, footprint => footprint
  | depth + 1, lists, footprint =>
      let lists := lists.filter fun words => words.any (!·.isEmpty)
      if lists.isEmpty then footprint
      else
        let next := lists.flatMap fun words =>
          (runs words).flatMap fun run => (firstBytes run).map (behind run)
        wordTree depth next (lists.foldl wordNodes footprint)

def oneWord (direction : Direction) (words : List Bytes) (footprint : Footprint) : Footprint :=
  let words := match direction with
    | .forwards => words
    | .backwards => words.map List.reverse
  let longest := words.foldl (fun longest word => max longest word.length) 0
  wordTree (longest + 1) [words] footprint.node

/-! ## Expressions -/

inductive BranchPlace where
  | first
  | second
  | later
  deriving DecidableEq, Repr

namespace BranchPlace

def next : BranchPlace → BranchPlace
  | .first => .second
  | _ => .later

/-- What comes with an alternative: the second calls for a fork and a common end, and any further
one for another way from the fork. -/
def finish : BranchPlace → Footprint → Footprint
  | .first, footprint => footprint
  | .second, footprint => (footprint.fork 2).node
  | .later, footprint => footprint.way

end BranchPlace

def words? (expr : Expr) : Option (List Bytes) :=
  expr.branches.mapM fun branch =>
    match branch with
    | .literal bytes => some bytes
    | _ => none

def repetition (once : Footprint → Footprint) (takesSome : Bool) (least : Nat)
    (most : Option Nat) (footprint : Footprint) : Footprint :=
  match least, most with
  | 0, some 1 => (once (footprint.fork 2)).node
  | 0, none =>
      if takesSome then once (footprint.fork 2) else (((once footprint).fork 2).fork 2).node
  | least, none => (copies once least footprint).fork 2
  | least, some most =>
      let needed := if least = 0 then footprint.node else copies once least footprint
      if most ≤ least then needed
      else copies (fun footprint => once (footprint.fork 2)) (most - least) needed.node

def measure (direction : Direction) : Expr → BranchPlace → Footprint → Footprint
  | .empty, place, footprint | .assertion _, place, footprint => place.finish footprint.node
  | .literal bytes, place, footprint =>
      place.finish ⟨footprint.nodes + bytes.length, footprint.bytes + 32 * bytes.length⟩
  | .byteIn set, place, footprint => place.finish (footprint.byteSet set)
  | .characterIn set, place, footprint => place.finish (footprint.characterSet direction set)
  | .group _ body, place, footprint =>
      place.finish <|
        match direction with
        | .forwards => (measure direction body .first footprint.node).node
        | .backwards => measure direction body .first footprint
  | .sequence first second, place, footprint =>
      place.finish <|
        match direction with
        | .forwards => measure direction second .first (measure direction first .first footprint)
        | .backwards => measure direction first .first (measure direction second .first footprint)
  | .choice first second, place, footprint =>
      match if place = .first then words? (.choice first second) else none with
      | some words => footprint.oneWord direction words
      | none =>
          measure direction second place.next
            (place.finish (measure direction first .first footprint))
  | .repeated body least most _, place, footprint =>
      place.finish <|
        repetition (measure direction body .first) ((body.leastLength.getD 0) ≠ 0) least most
          footprint

/-- The way to the places where a match may begin: the very start, or after any bytes. -/
def approach (anchored : Bool) : Footprint :=
  if anchored then blank.node else (blank.fork 2).node.table 1

/-- The whole automaton of an expression. Forwards it also marks where groups begin and end, of
which the match itself is one. -/
def ofExpr (direction : Direction) (expr : Expr) : Footprint :=
  match direction with
  | .forwards => (measure direction expr .first (approach expr.startsText).node).node.node
  | .backwards => (measure direction expr .first (approach expr.endsText)).node

def fits (expr : Expr) : Bool :=
  !(ofExpr .forwards expr).exceeds && !(ofExpr .backwards expr).exceeds

end Footprint

end BootConsole.Pattern
