import LangCore.Dump.Sexpr
import LangCore.Fault

/-!
# The printer

A printer knows its width and how deep it stands. While it writes the children
of a node it stands one level deeper, and it comes back to where it was, also
when a child cannot be written, so one printer writes any number of documents
and its texts do not depend on what it wrote before. The text is appended to a
page, so that every character is written once however deep its document nests.
-/

namespace LangCore

structure Printer where
  width : Nat
  depth : Nat
  deriving DecidableEq

namespace Printer

/-- Blanks for each level when nothing else is asked for. -/
def defaultWidth : Nat := 4

def ofWidth (width : Nat) : Printer := ⟨width, 0⟩

instance : Inhabited Printer := ⟨ofWidth defaultWidth⟩

/-- The printer one level deeper. -/
def pushed (p : Printer) : Printer := { p with depth := p.depth + 1 }

def popped (p : Printer) : Printer := { p with depth := p.depth - 1 }

/-- Whether a line can be indented where the printer stands. -/
def indents (p : Printer) : Bool := Sexpr.indentable p.width p.depth

@[simp] theorem popped_pushed (p : Printer) : p.pushed.popped = p := rfl

@[simp] theorem pushed_depth (p : Printer) : p.pushed.depth = p.depth + 1 := rfl

@[simp] theorem pushed_width (p : Printer) : p.pushed.width = p.width := rfl

end Printer

/-- A printer at work and what it has written so far. -/
structure Page where
  printer : Printer
  text : String

namespace Page

def append (page : Page) (s : String) : Page :=
  { page with text := page.text ++ s }

def newline (page : Page) : Page :=
  (page.append "\n").append (Sexpr.indentation page.printer.width page.printer.depth)

def pushed (page : Page) : Page := { page with printer := page.printer.pushed }

def popped (page : Page) : Page := { page with printer := page.printer.popped }

mutual

/-- Writes a document where the page ends. When a node cannot be indented the page is lost, and
what is left is the printer, back where it stood before the document. -/
def write : Sexpr → Page → Except Printer Page
  | .atom s, page => .ok (page.append s)
  | .form parts, page =>
    match writeSpaced parts (page.append "(") with
    | .ok filled => .ok (filled.append ")")
    | .error p => .error p
  | .node header children, page =>
    match writeSpaced header (page.append "(") with
    | .ok opened =>
      let inner := (opened.append " (").pushed
      if inner.printer.indents then
        match writeLines children inner with
        | .ok filled => .ok (filled.popped.append "))")
        | .error p => .error p.popped
      else .error inner.printer.popped
    | .error p => .error p

def writeSpaced : List Sexpr → Page → Except Printer Page
  | [], page => .ok page
  | s :: rest, page =>
    match write s page with
    | .ok page => writeTail rest page
    | .error p => .error p

/-- Writes documents with a blank before each. -/
def writeTail : List Sexpr → Page → Except Printer Page
  | [], page => .ok page
  | s :: rest, page =>
    match write s (page.append " ") with
    | .ok page => writeTail rest page
    | .error p => .error p

/-- Writes each document on a line of its own. -/
def writeLines : List Sexpr → Page → Except Printer Page
  | [], page => .ok page
  | s :: rest, page =>
    match write s page.newline with
    | .ok page => writeLines rest page
    | .error p => .error p

end

@[simp] theorem append_append (page : Page) (s t : String) :
    (page.append s).append t = page.append (s ++ t) := by
  simp [append, String.append_assoc]

@[simp] theorem printer_append (page : Page) (s : String) :
    (page.append s).printer = page.printer := rfl

@[simp] theorem printer_pushed (page : Page) : page.pushed.printer = page.printer.pushed := rfl

@[simp] theorem popped_append_pushed (page : Page) (s : String) :
    (page.pushed.append s).popped = page.append s := rfl

theorem newline_eq (page : Page) : page.newline =
    page.append ("\n" ++ Sexpr.indentation page.printer.width page.printer.depth) := by
  simp [newline]

@[simp] theorem append_empty (page : Page) : page.append "" = page := by
  simp [append]

theorem intercalate_blank (s : String) (ss : List String) :
    " ".intercalate (s :: ss) = s ++ String.join (ss.map (" " ++ ·)) := by
  induction ss generalizing s with
  | nil => simp
  | cons t ss ih => simp [String.intercalate_cons_cons, ih, String.append_assoc]

/-- The page with a text at its end if all that is to be written fits, else the printer. -/
def extended (page : Page) (fits : Bool) (s : String) : Except Printer Page :=
  if fits then .ok (page.append s) else .error page.printer

@[simp] theorem extended_true (page : Page) (s : String) :
    page.extended true s = .ok (page.append s) := rfl

@[simp] theorem extended_false (page : Page) (s : String) :
    page.extended false s = .error page.printer := rfl

mutual

/-- Writing a document that fits adds its text and leaves the printer as it was. A document that
does not fit leaves the printer as it was, too. -/
theorem write_eq : ∀ (s : Sexpr) (page : Page),
    write s page = page.extended (s.fits page.printer.width page.printer.depth)
      (s.text page.printer.width page.printer.depth)
  | .atom _, _ => rfl
  | .form parts, page => by
    rw [write, writeSpaced_eq parts, Sexpr.text_form, Sexpr.fits_form, printer_append]
    cases parts.all (Sexpr.fits page.printer.width page.printer.depth) <;>
      simp [String.append_assoc]
  | .node header children, page => by
    rw [write, writeSpaced_eq header, Sexpr.text_node, Sexpr.fits_node, printer_append]
    cases header.all (Sexpr.fits page.printer.width page.printer.depth) with
    | false => simp
    | true =>
      simp only [extended_true, append_append, printer_pushed, printer_append, Printer.indents,
        Printer.pushed_width, Printer.pushed_depth, writeLines_eq children, Bool.true_and]
      cases Sexpr.indentable page.printer.width (page.printer.depth + 1) with
      | false => simp
      | true =>
        cases children.all (Sexpr.fits page.printer.width (page.printer.depth + 1)) <;>
          simp [String.append_assoc]

theorem writeSpaced_eq : ∀ (ss : List Sexpr) (page : Page),
    writeSpaced ss page =
      page.extended (ss.all (Sexpr.fits page.printer.width page.printer.depth))
        (" ".intercalate (ss.map (Sexpr.text page.printer.width page.printer.depth)))
  | [], page => by simp [writeSpaced]
  | s :: rest, page => by
    rw [writeSpaced, write_eq s]
    cases h : s.fits page.printer.width page.printer.depth with
    | false => simp [h]
    | true => simp [h, writeTail_eq rest, extended, intercalate_blank, Function.comp_def]

theorem writeTail_eq : ∀ (ss : List Sexpr) (page : Page),
    writeTail ss page =
      page.extended (ss.all (Sexpr.fits page.printer.width page.printer.depth))
        (String.join (ss.map fun s => " " ++ s.text page.printer.width page.printer.depth))
  | [], page => by simp [writeTail]
  | s :: rest, page => by
    rw [writeTail, write_eq s, printer_append]
    cases h : s.fits page.printer.width page.printer.depth with
    | false => simp [h]
    | true => simp [h, writeTail_eq rest, extended, String.append_assoc]

theorem writeLines_eq : ∀ (ss : List Sexpr) (page : Page),
    writeLines ss page =
      page.extended (ss.all (Sexpr.fits page.printer.width page.printer.depth))
        (String.join (ss.map fun s =>
          "\n" ++ Sexpr.indentation page.printer.width page.printer.depth ++
            s.text page.printer.width page.printer.depth))
  | [], page => by simp [writeLines]
  | s :: rest, page => by
    rw [writeLines, newline_eq, write_eq s, printer_append]
    cases h : s.fits page.printer.width page.printer.depth with
    | false => simp [h]
    | true => simp [h, writeLines_eq rest, extended, String.append_assoc]

end

end Page

/-- The text of one document, unless a line in it cannot be indented, and the printer
afterwards. -/
def Printer.print (p : Printer) (s : Sexpr) : Except Fault String × Printer :=
  match Page.write s ⟨p, ""⟩ with
  | .ok page => (.ok page.text, page.printer)
  | .error p => (.error .indentTooWide, p)

/-- A print depends on width and depth alone and leaves the printer as it was. -/
theorem Printer.print_eq (p : Printer) (s : Sexpr) :
    p.print s =
      (if s.fits p.width p.depth then .ok (s.text p.width p.depth) else .error .indentTooWide,
        p) := by
  rw [Printer.print, Page.write_eq]
  cases s.fits p.width p.depth <;> simp [Page.append]

end LangCore
