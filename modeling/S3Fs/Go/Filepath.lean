import S3Fs.Go.Strings

/-!
# `path/filepath` on Unix

The server builds every filesystem path with `filepath.Join`, takes parents with
`filepath.Dir`, and turns walked paths back into keys with `filepath.Rel` and
`filepath.ToSlash`.  All four rest on `filepath.Clean`.

Go's `Clean` is a single byte loop over a lazily copied buffer.  The model states
the same rewriting over the `'/'`-separated elements, which is how Go documents it:

1. runs of separators collapse (empty elements are dropped);
2. each `.` element is dropped;
3. each `..` removes the element before it, when there is one that is not `..`;
4. a `..` at the start of a rooted path is dropped;

and the result is `"."` when nothing is left of a relative path.  The kept
elements are held on a stack, top first, as in `pushElem`.

`Rel` keeps Go's shape: clean both paths, split them into elements, skip the
common leading elements, then climb out of what is left of the base.
-/

namespace S3Fs.Filepath

open Strings

/-- Push one element on the reversed stack of kept elements (rules 1-4 of
    `Clean`).  A `..` with nothing to cancel is kept in a relative path and
    dropped in a rooted one. -/
def pushElem (rooted : Bool) (st : List Bytes) (e : Bytes) : List Bytes :=
  if e = [] ∨ e = dot then st
  else if e = dotdot then
    match st with
    | [] => if rooted then [] else [dotdot]
    | top :: rest => if top = dotdot then dotdot :: st else rest
  else e :: st

/-- The elements `Clean` keeps, in order. -/
def cleanElems (rooted : Bool) (p : Bytes) : List Bytes :=
  ((split p slash).foldl (pushElem rooted) []).reverse

/-- Whether a path starts at the root. -/
def isRooted (p : Bytes) : Bool := p.head? = some slash

/-- `filepath.Clean`. -/
def clean (p : Bytes) : Bytes :=
  let kept := cleanElems (isRooted p) p
  if isRooted p then slash :: Strings.join kept slash
  else if kept = [] then dot
  else Strings.join kept slash

/-- `filepath.Join(elem...)`: skip the leading empty elements, join the rest with
    `'/'` and clean the result; `""` when every element is empty. -/
def join (elem : List Bytes) : Bytes :=
  match elem.dropWhile (· = []) with
  | [] => []
  | rest => clean (Strings.join rest slash)

/-- `filepath.Dir`: clean everything up to and including the last separator. -/
def dir (p : Bytes) : Bytes := clean (p.reverse.dropWhile (· ≠ slash)).reverse

/-- `filepath.ToSlash`: the identity, since the separator already is `'/'`. -/
def toSlash (p : Bytes) : Bytes := p

/-- The elements `Rel` compares of a cleaned path: the rooted `"/"` and the
    empty base have none. -/
def relElems : Bytes → List Bytes
  | [] => []
  | c :: rest => if c = slash then (if rest = [] then [] else split rest slash)
      else split (c :: rest) slash

/-- Drop the leading elements two element lists share. -/
def dropCommon : List Bytes → List Bytes → List Bytes × List Bytes
  | b :: bs, t :: ts => if b = t then dropCommon bs ts else (b :: bs, t :: ts)
  | bs, ts => (bs, ts)

/-- `filepath.Rel(basepath, targpath)`: a path that joined to `basepath` names
    `targpath`, or an error when there is none (one path rooted and the other
    not, or a `..` left in the base). -/
def rel (basepath targpath : Bytes) : Except Bytes Bytes :=
  let base := clean basepath
  let targ := clean targpath
  if targ = base then .ok dot
  else
    let base := if base = dot then [] else base
    if isRooted base ≠ isRooted targ then
      .error (lit "Rel: can't make " ++ targpath ++ lit " relative to " ++ basepath)
    else
      match dropCommon (relElems base) (relElems targ) with
      | (bs, ts) =>
        if bs.head? = some dotdot then
          .error (lit "Rel: can't make " ++ targpath ++ lit " relative to " ++ basepath)
        else Strings.join (bs.map (fun _ => dotdot) ++ ts) slash |> .ok

end S3Fs.Filepath
