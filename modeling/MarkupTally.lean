import MarkupTally.CommandLine.Serve
import MarkupTally.Main
import MarkupTally.Service
import MarkupTally.Proofs.Presence
import MarkupTally.Proofs.Schedule
import MarkupTally.Proofs.Runs
import MarkupTally.Proofs.Tally
import MarkupTally.Proofs.Skipping
import MarkupTally.Proofs.Preorder
import MarkupTally.Proofs.Enumeration
import MarkupTally.Proofs.Verdict
import MarkupTally.Proofs.Nesting
import MarkupTally.Proofs.Utf8
import MarkupTally.Proofs.Damage
import MarkupTally.Proofs.FileTexts
import MarkupTally.Proofs.Positions
import MarkupTally.Proofs.Strictness
import MarkupTally.Proofs.Paths
import MarkupTally.Proofs.Folders
import MarkupTally.Proofs.Scanning
import MarkupTally.Proofs.Enclosure
import MarkupTally.Proofs.Numerals
import MarkupTally.Proofs.JsonTexts
import MarkupTally.Proofs.Records
import MarkupTally.Proofs.Arguments
import MarkupTally.Proofs.Commands
import MarkupTally.Proofs.Agreement
import MarkupTally.Proofs.Ownership
import MarkupTally.Proofs.Places
import MarkupTally.Proofs.Surroundings
import MarkupTally.Proofs.Faults
import MarkupTally.Proofs.Comments
import MarkupTally.Proofs.Indices
import MarkupTally.Proofs.Arrows
import MarkupTally.Proofs.Listings
import MarkupTally.Proofs.Merging
import MarkupTally.Proofs.Columns
