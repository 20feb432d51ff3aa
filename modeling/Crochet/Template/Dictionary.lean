/-! The stitches every pattern may use. -/
namespace Crochet

def stitchDictionary : List (String × String) := [
  ("ring", "&ring^A(ring):~::!-0.1-A"),
  ("tie_up", "&tie up stitches^A(tie):B~A-B::!-0.1-A;B-0.7-A"),
  ("start_at", "&start at^A(hidden):B~A-B::!-skip-A;B-0.001-A"),
  ("start_anew", "&start anew^A(hidden):~::!-skip-A"),
  ("start_a_new_chain", "&start a new chain^A(ch):~::!-skip-A"),
  ("sk", "&sk^:A~::"),
  ("ch", "&ch^A(ch):~::!-1-A"),
  ("ss", "&ss^A(ss):B~A-B::!-1-A;B-0.4-A"),
  ("sc", "&sc^A(sc):B~A-B::!-1-A;B-1-A"),
  ("fpsc", "&fpsc^A(fpsc):B[front0.3]~A-B::!-1-A;B-1-A"),
  ("bpsc", "&bpsc^A(bpsc):B[back0.3]~A-B::!-1-A;B-1-A"),
  ("rsc", "&rsc^A(rsc):B~A-B::!-1-A;B-1-A"),
  ("hdc", "&hdc^A(hdc):B~A-B::!-1-A;B-1.5-A"),
  ("bphdc", "&bphdc^A(bphdc):B[back0.4]~A-B::!-1-A;B-1.3-A"),
  ("fphdc", "&fphdc^A(fphdc):B[front0.4]~A-B::!-1-A;B-1.3-A"),
  ("dc", "&dc^A(dc):B~A-B::!-1-A;B-2-A"),
  ("bpdc", "&bpdc^A(bpdc):B[back0.6]~A-B::!-1-A;B-1.5-A"),
  ("fpdc", "&fpdc^A(fpdc):B[front0.6]~A-B::!-1-A;B-1.5-A"),
  ("bptr", "&bptr^A(bptr):B[back0.7]~A-B::!-1-A;B-2.5-A"),
  ("fptr", "&fptr^A(fptr):B[front0.7]~A-B::!-1-A;B-2.5-A"),
  ("tr", "&tr^A(tr):B~A-B::!-1-A;B-2.5-A"),
  ("dtr", "&dtr^A(dtr):B~A-B::!-1-A;B-3-A"),
  ("trtr", "&trtr^A(trtr):B~A-B::!-1-A;B-3.5-A"),
  ("hdc3puff",
    "&an hdc puff of 3 stitches^A(hdc3puff):B~A-B:C;D;E;F;G;H:!-1-A;B-0.55-C;C-0.55-D;"
      ++ "D-0.55-A;B-0.55-E;E-0.55-F;F-0.55-A;B-0.55-G;G-0.55-H;H-0.55-A"),
  ("hdc4puff",
    "&an hdc puff of 4 stitches^A(hdc4puff):B~A-B:C;D;E;F;G;H;I;J:!-1-A;B-0.55-C;"
      ++ "C-0.55-D;D-0.55-A;B-0.55-E;E-0.55-F;F-0.55-A;B-0.55-G;G-0.55-H;H-0.55-A;B-0.55-I;"
      ++ "I-0.55-J;J-0.55-A"),
  ("hdc5puff",
    "&an hdc puff of 5 stitches^A(hdc5puff):B~A-B:C;D;E;F;G;H;I;J;K;L:!-1-A;B-0.55-C;"
      ++ "C-0.55-D;D-0.55-A;B-0.55-E;E-0.55-F;F-0.55-A;B-0.55-G;G-0.55-H;H-0.55-A;B-0.55-I;"
      ++ "I-0.55-J;J-0.55-A;B-0.55-K;K-0.55-L;L-0.55-A"),
  ("dc3bobble",
    "&a dc bobble of 3 stitches^A(dc3bobble):B~A-B:C;D;E;F;G;H:!-1-A;B-0.7-C;C-0.8-D;"
      ++ "D-0.7-A;B-0.7-E;E-0.8-F;F-0.7-A;B-0.7-G;G-0.8-H;H-0.7-A"),
  ("dc4bobble",
    "&a dc bobble of 4 stitches^A(dc4bobble):B~A-B:C;D;E;F;G;H;I;J:!-1-A;B-0.7-C;C-0.8-D;"
      ++ "D-0.7-A;B-0.7-E;E-0.8-F;F-0.7-A;B-0.7-G;G-0.8-H;H-0.7-A;B-0.7-I;I-0.8-J;J-0.7-A"),
  ("dc5bobble",
    "&a dc bobble of 5 stitches^A(dc5bobble):B~A-B:C;D;E;F;G;H;I;J;K;L:!-1-A;B-0.7-C;"
      ++ "C-0.8-D;D-0.7-A;B-0.7-E;E-0.8-F;F-0.7-A;B-0.7-G;G-0.8-H;H-0.7-A;B-0.7-I;I-0.8-J;"
      ++ "J-0.7-A;B-0.7-K;K-0.8-L;L-0.7-A"),
  ("tr4bobble",
    "&a tr bobble of 4 stitches^A(tr4bobble):B~A-B:C;D;E;F;G;H;I;J:!-1-A;B-1.2-C;C-0.8-D;"
      ++ "D-1.2-A;B-1.2-E;E-1.2-F;F-1.2-A;B-1.2-G;G-1.2-H;H-1.2-A;B-1.2-I;I-1.2-J;J-1.2-A"),
  ("dc3pc",
    "&dc3pc^A(dc3pc):B~A-B:C;D;E;F;G;H:!-1-A;B-1.2-C;C-1.2-D;B-1-E;E-1-F;B-1.2-G;G-1.2-H;"
      ++ "D-0.8-F;F-0.8-H;!-0.33-D;D-0.33-H;H-0.33-A"),
  ("dc4pc",
    "&dc4pc^A(dc4pc):B~A-B:C;D;E;F;G;H;I;J:!-1-A;B-1.2-C;C-1.2-D;B-1-E;E-1-F;B-1.2-G;"
      ++ "G-1.2-H;B-1.2-I;I-1.2-J;D-0.8-F;F-0.8-H;H-0.8-J;!-0.33-D;D-0.33-J;J-0.33-A"),
  ("dc5pc",
    "&dc5pc^A(dc5pc):B~A-B:C;D;E;F;G;H;I;J;K;L:!-1-A;B-1.2-C;C-1.2-D;B-1-E;E-1-F;B-1.2-G;"
      ++ "G-1.2-H;B-1.2-I;I-1.2-J;B-1.2-K;K-1.2-L;D-0.8-F;F-0.8-H;H-0.8-J;J-0.8-L;!-0.33-D;"
      ++ "D-0.33-L;L-0.33-A"),
  ("picot3", "&picot^A(ch);B(ch);C(ch);D(ss):~::!-1-A;A-1-B;B-1-C;C-1-D;!-0.4-D"),
  ("scbl", "&scbl^A(scbl):B[back]~A-B::!-1-A;B-1-A"),
  ("rscbl", "&rscbl^A(rscbl):B[back]~A-B::!-1-A;B-1-A"),
  ("ssbl", "&ssbl^A(ssbl):B[back]~A-B::!-1-A;B-0.4-A"),
  ("dcbl", "&dcbl^A(dcbl):B[back]~A-B::!-1-A;B-2-A"),
  ("hdcbl", "&hdcbl^A(hdcbl):B[back]~A-B::!-1-A;B-1.5-A"),
  ("trbl", "&trbl^A(trbl):B[back]~A-B::!-1-A;B-2.5-A"),
  ("dtrbl", "&dtrbl^A(dtrbl):B[back]~A-B::!-1-A;B-3-A"),
  ("trtrbl", "&trtrbl^A(trtrbl):B[back]~A-B::!-1-A;B-3.5-A"),
  ("scfl", "&scfl^A(scfl):B[front]~A-B::!-1-A;B-1-A"),
  ("rscfl", "&rscfl^A(rscfl):B[front]~A-B::!-1-A;B-1-A"),
  ("ssfl", "&ssfl^A(ssfl):B[front]~A-B::!-1-A;B-0.4-A"),
  ("dcfl", "&dcfl^A(dcfl):B[front]~A-B::!-1-A;B-2-A"),
  ("hdcfl", "&hdcfl^A(hdcfl):B[front]~A-B::!-1-A;B-1.5-A"),
  ("trfl", "&trfl^A(trfl):B[front]~A-B::!-1-A;B-2.5-A"),
  ("dtrfl", "&dtrfl^A(dtrfl):B[front]~A-B::!-1-A;B-3-A"),
  ("trtrfl", "&trtrfl^A(trtrfl):B[front]~A-B::!-1-A;B-3.5-A"),
  ("longsc", "&longsc^A(longsc):B~A-B::!-1-A;B-2-A"),
  ("longdc", "&longdc^A(longdc):B~A-B::!-1-A;B-3-A"),
  ("longtr", "&longtr^A(longtr):B~A-B::!-1-A;B-3.5-A")]

end Crochet
